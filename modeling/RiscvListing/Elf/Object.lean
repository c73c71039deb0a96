import RiscvListing.Instruction.Decode
import RiscvListing.Elf.Symbol

namespace RiscvListing.Elf

structure Object where
  image : Image
  sections : Sections

namespace Object

def parse (bytes : Bytes) (strict : Bool) : Except Error Object := do
  let image ← Image.ofBytes bytes
  let sections ← Sections.resolve image strict
  return ⟨image, sections⟩

def symbolScan (object : Object) : Scan Symbol :=
  Symbol.scan object.image object.sections.symtab object.sections.strtab

def symbols (object : Object) : Except Error (List Symbol) :=
  object.symbolScan.result

/-- The whole words of the code with their positions in the file. -/
def words (object : Object) : Except Error (List (Nat × Word)) :=
  let text := object.sections.text
  let read (index : Nat) : Except Error (Nat × Word) := do
    let position := text.offset.toNat + 4 * index
    let word ← object.image.wordAt position
    return (position, word)
  (Scan.items read (text.size.toNat / 4)).result

def code (object : Object) : Except Error (List CodeWord) := do
  let words ← object.words
  return words.map fun (position, word) => ⟨object.sections.text.addressOf position, word⟩

end Object

end RiscvListing.Elf
