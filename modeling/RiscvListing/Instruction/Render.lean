import RiscvListing.Labels

namespace RiscvListing

namespace Instruction

def targetSuffix (labels : Labels) (target : Address) : String :=
  match labels.get? target with
  | some name => " <" ++ name ++ ">"
  | none => ""

def baseOperand (offset : Immediate) (base : Register) : String :=
  Text.signedDecimal offset.toInt ++ "(" ++ base.name ++ ")"

/-- The operands of an instruction at `address`. A branch shows the address that it goes to and a
jump the distance. -/
def operands (labels : Labels) (address : Address) : Instruction → String
  | lui rd value => rd.name ++ ", 0x" ++ Text.hex value.toNat
  | auipc rd value => rd.name ++ ", " ++ Text.signedDecimal value.toInt
  | jal rd offset =>
    rd.name ++ ", " ++ Text.signedDecimal offset.toInt ++ targetSuffix labels (address + offset)
  | jalr rd rs1 offset => rd.name ++ ", " ++ baseOperand offset rs1
  | branch _ rs1 rs2 offset =>
    rs1.name ++ ", " ++ rs2.name ++ ", 0x" ++ Text.hex (address + offset).toNat ++
      targetSuffix labels (address + offset)
  | load _ rd rs1 offset => rd.name ++ ", " ++ baseOperand offset rs1
  | store _ rs1 rs2 offset => rs2.name ++ ", " ++ baseOperand offset rs1
  | immediate _ rd rs1 value =>
    rd.name ++ ", " ++ rs1.name ++ ", " ++ Text.signedDecimal value.toInt
  | shift _ rd rs1 amount =>
    rd.name ++ ", " ++ rs1.name ++ ", " ++ Text.signedDecimal amount.toInt
  | register _ rd rs1 rs2 => rd.name ++ ", " ++ rs1.name ++ ", " ++ rs2.name
  | fence | ecall | ebreak | unknown => ""

def render (labels : Labels) (address : Address) (instruction : Instruction) : String :=
  if instruction = unknown then instruction.mnemonic
  else Text.alignRight 7 instruction.mnemonic ' ' ++ "\t" ++ instruction.operands labels address

end Instruction

def CodeWord.render (labels : Labels) (code : CodeWord) : String :=
  code.instruction.render labels code.address

end RiscvListing
