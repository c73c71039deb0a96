import RiscvListing.Instruction.Basic

namespace RiscvListing

theorem Register.ofIndex_shiftRight (word : Word) (start : Nat) :
    ofIndex (word >>> start) = ⟨word.extractLsb' start 5⟩ := by
  rw [ofIndex, BitVec.setWidth_ushiftRight_eq_extractLsb]

namespace Word

def opcode (word : Word) : BitVec 7 :=
  word.extractLsb' 0 7

def rd (word : Word) : Register :=
  .ofIndex (word >>> 7)

theorem number_rd (word : Word) : word.rd.number = word.extractLsb' 7 5 :=
  congrArg Register.number (Register.ofIndex_shiftRight word 7)

def funct3 (word : Word) : BitVec 3 :=
  word.extractLsb' 12 3

def rs1 (word : Word) : Register :=
  .ofIndex (word >>> 15)

theorem number_rs1 (word : Word) : word.rs1.number = word.extractLsb' 15 5 :=
  congrArg Register.number (Register.ofIndex_shiftRight word 15)

def rs2 (word : Word) : Register :=
  .ofIndex (word >>> 20)

theorem number_rs2 (word : Word) : word.rs2.number = word.extractLsb' 20 5 :=
  congrArg Register.number (Register.ofIndex_shiftRight word 20)

def funct7 (word : Word) : BitVec 7 :=
  word.extractLsb' 25 7

def funct12 (word : Word) : BitVec 12 :=
  word.extractLsb' 20 12

def upperImmediate (word : Word) : Immediate :=
  (word.extractLsb' 12 20).setWidth 32

def shortImmediate (word : Word) : Immediate :=
  signedField word.funct12

def storeOffset (word : Word) : Immediate :=
  signedField (word.extractLsb' 25 7 ++ word.extractLsb' 7 5)

def branchOffset (word : Word) : Immediate :=
  signedField
    (word.extractLsb' 31 1 ++ word.extractLsb' 7 1 ++ word.extractLsb' 25 6 ++
      word.extractLsb' 8 4 ++ 0#1)

/-- The offset of a jump: bit 19 of the word gives both bit 19 and bit 11 of the offset. -/
def jumpOffset (word : Word) : Immediate :=
  signedField
    (word.extractLsb' 31 1 ++ word.extractLsb' 12 8 ++ word.extractLsb' 19 1 ++
      word.extractLsb' 21 10 ++ 0#1)

/-- The listed amount of a constant shift: the short immediate without its five low bits. -/
def shiftAmount (word : Word) : Immediate :=
  word.shortImmediate.sshiftRight 5

end Word

end RiscvListing
