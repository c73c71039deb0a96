import RiscvListing.Elf.Image
import RiscvListing.Elf.Scan

namespace RiscvListing.Elf

structure Section where
  role : SectionRole
  offset : Word
  size : Word
  address : Address
  deriving DecidableEq

namespace Section

def empty (role : SectionRole) : Section :=
  ⟨role, 0, 0, 0⟩

def stop (part : Section) : Nat :=
  part.offset.toNat + part.size.toNat

def addressOf (part : Section) (position : Nat) : Address :=
  BitVec.ofNat 32 position + (part.address - part.offset)

end Section

/-- Where the section headers are, and which of them describes the table of section names. -/
structure HeaderTable where
  offset : Word
  count : BitVec 16
  nameIndex : BitVec 16

structure SectionHeader where
  name : String
  address : Address
  offset : Word
  size : Word

namespace HeaderTable

def headerSize : Nat :=
  40

def position (table : HeaderTable) (index : Nat) : Nat :=
  table.offset.toNat + index * headerSize

def read (image : Image) : Except Error HeaderTable := do
  let offset ← image.wordAt 0x20
  let count ← image.halfAt 0x30
  let nameIndex ← image.halfAt 0x32
  return ⟨offset, count, nameIndex⟩

def namesOffset (table : HeaderTable) (image : Image) : Except Error Nat := do
  checkRange table.offset.toNat (table.count.toNat * headerSize) image.size
  if table.nameIndex < table.count then
    let offset ← image.wordAt (table.position table.nameIndex.toNat + 16)
    return offset.toNat
  else throw (.invalidOffset (table.position table.nameIndex.toNat))

def headerAt (table : HeaderTable) (image : Image) (names index : Nat) :
    Except Error SectionHeader := do
  let entry := table.position index
  let nameOffset ← image.wordAt entry
  let name ← image.nameAt (names + nameOffset.toNat)
  let address ← image.wordAt (entry + 12)
  let offset ← image.wordAt (entry + 16)
  let size ← image.wordAt (entry + 20)
  return ⟨name, address, offset, size⟩

def headers (table : HeaderTable) (image : Image) : Scan SectionHeader :=
  if table.count = 0#16 then ⟨[], none⟩
  else
    match table.namesOffset image with
    | .ok names => .items (table.headerAt image names) table.count.toNat
    | .error error => .failed error

end HeaderTable

namespace Section

/-- Only the code has an address, and the names are bounded by the file alone. -/
def ofHeader (role : SectionRole) (header : SectionHeader) : Section :=
  match role with
  | .text => ⟨role, header.offset, header.size, header.address⟩
  | .symtab => ⟨role, header.offset, header.size, 0⟩
  | .strtab => ⟨role, header.offset, 0, 0⟩

/-- The last header with the name of the section. -/
def header? (role : SectionRole) (headers : List SectionHeader) : Option SectionHeader :=
  headers.reverse.find? (·.name == role.name)

/-- The section described by the last header of its name. One that is missing is empty unless all
are required. -/
def select (strict : Bool) (headers : List SectionHeader) (role : SectionRole) :
    Except Error Section :=
  match header? role headers with
  | some header => .ok (ofHeader role header)
  | none => if strict then .error (.missingSection role) else .ok (empty role)

end Section

structure Sections where
  text : Section
  symtab : Section
  strtab : Section
  deriving DecidableEq

namespace Sections

def symbolSize : Nat :=
  16

def select (strict : Bool) (headers : List SectionHeader) : Except Error Sections := do
  let text ← Section.select strict headers .text
  let symtab ← Section.select strict headers .symtab
  let strtab ← Section.select strict headers .strtab
  return ⟨text, symtab, strtab⟩

/-- The code and the symbols lie inside the file, and the symbols are whole records. -/
def check (sections : Sections) (length : Nat) : Except Error Unit := do
  checkRange sections.text.offset.toNat sections.text.size.toNat length
  checkRange sections.symtab.offset.toNat sections.symtab.size.toNat length
  if sections.symtab.size.toNat % symbolSize ≠ 0 then
    throw (.misalignedSection .symtab sections.symtab.size.toNat symbolSize)

def resolve (image : Image) (strict : Bool) : Except Error Sections := do
  let table ← HeaderTable.read image
  let headers ← (table.headers image).result
  let sections ← select strict headers
  sections.check image.size
  return sections

end Sections

end RiscvListing.Elf
