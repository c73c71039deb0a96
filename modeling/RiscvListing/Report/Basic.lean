import RiscvListing.Instruction.Render
import RiscvListing.Elf.Object
import RiscvListing.Config.Writer

namespace RiscvListing

/-- The names of the functions, and made up names for all other jump targets. -/
def Labels.ofProgram (symbols : List Elf.Symbol) (code : List CodeWord) : Labels :=
  (Labels.empty.insertAll (Elf.Symbol.functions symbols)).discover code

structure Report where
  lines : List String
  deriving DecidableEq

namespace Report

def labelLine (address : Address) (name : String) : String :=
  Text.alignRight 8 (Text.hex address.toNat) '0' ++ "   <" ++ name ++ ">:"

def instructionLine (labels : Labels) (code : CodeWord) : String :=
  "   " ++ Text.alignRight 5 (Text.hex code.address.toNat) '0' ++ ": \t" ++
    Text.alignRight 8 (Text.hex code.word.toNat) '0' ++ "\t" ++ code.render labels

def codeLines (labels : Labels) (code : CodeWord) : List String :=
  match labels.get? code.address with
  | some name => [labelLine code.address name, instructionLine labels code]
  | none => [instructionLine labels code]

def textLines (labels : Labels) (code : List CodeWord) : List String :=
  ".text" :: code.flatMap (codeLines labels)

def symbolHeader : String :=
  "Symbol " ++ Text.alignLeft 15 "Value" ++ " " ++ Text.alignRight 7 "Size" ' ' ++ " " ++
    Text.alignLeft 8 "Type" ++ " " ++ Text.alignLeft 8 "Bind" ++ " " ++
    Text.alignLeft 8 "Vis" ++ " " ++ Text.alignRight 6 "Index" ' ' ++ " Name"

def symbolRow (number : Nat) (symbol : Elf.Symbol) : String :=
  "[" ++ Text.alignRight 4 (Text.hex number) ' ' ++ "] 0x" ++
    Text.alignLeft 15 (Text.hex symbol.value.toNat) ++ " " ++
    Text.alignRight 5 (Text.decimal symbol.size.toNat) ' ' ++ " " ++
    Text.alignLeft 8 symbol.type.name ++ " " ++
    Text.alignLeft 8 symbol.binding.name ++ " " ++
    Text.alignLeft 8 symbol.visibility.name ++ " " ++
    Text.alignRight 6 symbol.home.name ' ' ++ " " ++ symbol.name

def symbolLines (symbols : List Elf.Symbol) : List String :=
  "" :: ".symtab" :: symbolHeader ::
    symbols.zipIdx.map fun (symbol, number) => symbolRow number symbol

def ofProgram (config : Config) (symbols : List Elf.Symbol) (code : List CodeWord) : Report :=
  let text := textLines (Labels.ofProgram symbols code) code
  ⟨if config.emitSymtab then text ++ symbolLines symbols else text⟩

def text (report : Report) : String :=
  String.join (report.lines.map (· ++ "\n"))

end Report

def disassemble (bytes : Bytes) (config : Config) : Except Elf.Error Report := do
  let object ← Elf.Object.parse bytes config.strict
  let symbols ← object.symbols
  let code ← object.code
  return .ofProgram config symbols code

end RiscvListing
