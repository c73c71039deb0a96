import RiscvListing.Report.Basic
import RiscvListing.Log.Event

namespace RiscvListing.Log

open Elf (Image HeaderTable SectionHeader SectionRole Sections Symbol Object)

namespace Trace

def namings (labels : Labels) : List Address → List Event
  | [] => []
  | target :: targets =>
    if labels.contains target then namings labels targets
    else
      .synthetic target (Labels.syntheticName labels.synthetic) ::
        namings (labels.ensure target) targets

def labelling (symbols : List Symbol) (code : List CodeWord) : List Event :=
  let named := Labels.empty.insertAll (Symbol.functions symbols)
  namings named (code.filterMap CodeWord.target?) ++ [.labelled (named.discover code)]

def decoding (text : Elf.Section) (code : List CodeWord) : List Event :=
  let size := text.size.toNat
  (if size % 4 = 0 then [] else [.trailing size]) ++
    [.decoded code.length (code.countP fun word => word.instruction = .unknown)]

def listing (object : Object) : List Event :=
  let scan := object.symbolScan
  let found := scan.values.zipIdx.map fun (symbol, index) => Event.symbol index symbol
  match scan.failure, object.code with
  | none, .ok code =>
    found ++ decoding object.sections.text code ++ labelling scan.values code
  | _, _ => found

def absent (headers : List SectionHeader) : List SectionRole :=
  [SectionRole.text, .symtab, .strtab].filter fun role =>
    (Elf.Section.header? role headers).isNone

def choosing (image : Image) (strict : Bool) (headers : List SectionHeader) : List Event :=
  match Sections.select strict headers with
  | .error _ => []
  | .ok sections =>
    (absent headers).map .missing ++
      match sections.check image.size with
      | .error _ => []
      | .ok _ => .resolved sections :: listing ⟨image, sections⟩

def disassembling (bytes : Bytes) (strict : Bool) : List Event :=
  match Image.ofBytes bytes with
  | .error _ => []
  | .ok image =>
    match HeaderTable.read image with
    | .error _ => []
    | .ok table =>
      let scan := table.headers image
      let found := scan.values.zipIdx.map fun (header, index) => Event.header index header.name
      .walking table :: found ++
        match scan.failure with
        | some _ => []
        | none => choosing image strict scan.values

end Trace

end RiscvListing.Log
