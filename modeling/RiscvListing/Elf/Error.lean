import RiscvListing.Basic

namespace RiscvListing.Elf

inductive SectionRole where
  | text | symtab | strtab
  deriving DecidableEq, Repr

def SectionRole.name : SectionRole → String
  | text => ".text"
  | symtab => ".symtab"
  | strtab => ".strtab"

inductive Error where
  | invalidMagic
  | invalidOffset (offset : Nat)
  | truncated (offset count : Nat)
  | missingSection (role : SectionRole)
  | misalignedSection (role : SectionRole) (size entry : Nat)
  deriving DecidableEq, Repr

def Error.message : Error → String
  | invalidMagic => "not an ELF file"
  | invalidOffset offset => "Invalid offset: 0x" ++ Text.hex offset
  | truncated offset count =>
    "Truncated at 0x" ++ Text.hex offset ++ ", needed " ++ Text.decimal count ++ " bytes"
  | missingSection role => "Missing required section " ++ role.name
  | misalignedSection role size entry =>
    "Section " ++ role.name ++ " size 0x" ++ Text.hex size ++ " is not a multiple of " ++
      Text.decimal entry

end RiscvListing.Elf
