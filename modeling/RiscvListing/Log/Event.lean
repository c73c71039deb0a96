import RiscvListing.Elf.Object
import RiscvListing.Labels

namespace RiscvListing.Log

inductive Level where
  | error | warn | info | debug | trace
  deriving DecidableEq, Repr

namespace Level

def name : Level → String
  | error => "ERROR"
  | warn => "WARN"
  | info => "INFO"
  | debug => "DEBUG"
  | trace => "TRACE"

def rank : Level → Nat
  | error => 1
  | warn => 2
  | info => 3
  | debug => 4
  | trace => 5

end Level

abbrev Threshold := Option Level

namespace Threshold

/-- Reads the name of a threshold. Warnings are written when none is named. -/
def ofName : Option String → Threshold
  | some "off" => none
  | some "error" => some .error
  | some "info" => some .info
  | some "debug" => some .debug
  | some "trace" => some .trace
  | _ => some .warn

def allows (threshold : Threshold) (level : Level) : Bool :=
  match threshold with
  | none => false
  | some most => level.rank ≤ most.rank

end Threshold

inductive Event where
  | started (json : Bool)
  | loading (path : String) (size limit : Nat)
  | tooLarge (path : String) (size limit : Nat)
  | walking (table : Elf.HeaderTable)
  | header (index : Nat) (name : String)
  | missing (role : Elf.SectionRole)
  | resolved (sections : Elf.Sections)
  | symbol (index : Nat) (found : Elf.Symbol)
  | trailing (size : Nat)
  | decoded (count unknown : Nat)
  | synthetic (address : Address) (name : String)
  | labelled (labels : Labels)
  | written (input output : String) (lines : Nat)

inductive Detail where
  | number (value : Nat)
  | text (value : String)

namespace Event

def level : Event → Level
  | started .. | loading .. | walking .. | resolved .. | decoded .. | labelled .. => .debug
  | tooLarge .. | missing .. | trailing .. => .warn
  | header .. | symbol .. | synthetic .. => .trace
  | written .. => .info

def target : Event → String
  | started .. => "rvdisasm::logging"
  | loading .. | tooLarge .. => "rvdisasm::io"
  | walking .. | header .. | missing .. | resolved .. => "rvdisasm::formats::elf::sections"
  | symbol .. => "rvdisasm::formats::elf::symbols"
  | trailing .. | decoded .. | labelled .. => "rvdisasm::disasm"
  | synthetic .. => "rvdisasm::disasm::labels"
  | written .. => "rvdisasm"

def message : Event → String
  | started true => "rvdisasm tracing initialized (JSON mode)"
  | started false => "rvdisasm tracing initialized"
  | loading .. => "Loading input file"
  | tooLarge .. => "File is too large"
  | walking .. => "Walking section headers"
  | header .. => "Section header"
  | missing .. => "Section not found, treating it as empty"
  | resolved .. => "Resolved sections"
  | symbol .. => "Symbol"
  | trailing .. => "Trailing bytes in .text do not form a whole instruction"
  | decoded .. => "Decoded .text"
  | synthetic .. => "Synthetic label"
  | labelled .. => "Labels assigned"
  | written .. => "Report written"

def details : Event → List (String × Detail)
  | started .. => []
  | loading path size limit =>
    [("path", .text path), ("size", .number size), ("limits.max_file_size", .number limit)]
  | tooLarge path size limit =>
    [("path", .text path), ("size", .number size), ("limit", .number limit)]
  | walking table =>
    [("e_shoff", .number table.offset.toNat), ("e_shnum", .number table.count.toNat),
     ("e_shstrndx", .number table.nameIndex.toNat)]
  | header index name => [("index", .number index), ("name", .text name)]
  | missing role => [("section", .text role.name)]
  | resolved sections =>
    [("text.addr", .number sections.text.address.toNat),
     ("text.offset", .number sections.text.offset.toNat),
     ("text.size", .number sections.text.size.toNat),
     ("symtab.offset", .number sections.symtab.offset.toNat),
     ("symtab.size", .number sections.symtab.size.toNat),
     ("strtab.offset", .number sections.strtab.offset.toNat)]
  | symbol index found =>
    [("index", .number index), ("name", .text found.name), ("value", .number found.value.toNat),
     ("info", .number found.info.toNat)]
  | trailing size => [("size", .number size)]
  | decoded count unknown => [("count", .number count), ("unknown", .number unknown)]
  | synthetic address name => [("address", .number address.toNat), ("name", .text name)]
  | labelled labels =>
    [("labels", .number labels.size), ("synthetic", .number labels.synthetic)]
  | written input output lines =>
    [("input", .text input), ("output", .text output), ("lines", .number lines)]

end Event

end RiscvListing.Log
