import Mathlib.Algebra.Group.Int.Defs
import Mathlib.Data.Bool.Basic
import RiscvListing.Instruction.Decode

namespace RiscvListing

def BranchOp.funct3 : BranchOp → BitVec 3
  | beq => 0b000#3
  | bne => 0b001#3
  | blt => 0b100#3
  | bge => 0b101#3
  | bltu => 0b110#3
  | bgeu => 0b111#3

def LoadOp.funct3 : LoadOp → BitVec 3
  | lb => 0b000#3
  | lh => 0b001#3
  | lw => 0b010#3
  | lbu => 0b100#3
  | lhu => 0b101#3

def StoreOp.funct3 : StoreOp → BitVec 3
  | sb => 0b000#3
  | sh => 0b001#3
  | sw => 0b010#3

def ImmediateOp.funct3 : ImmediateOp → BitVec 3
  | addi => 0b000#3
  | slti => 0b010#3
  | sltiu => 0b011#3
  | xori => 0b100#3
  | ori => 0b110#3
  | andi => 0b111#3

def ShiftOp.funct3 : ShiftOp → BitVec 3
  | slli => 0b001#3
  | srli | srai => 0b101#3

def ShiftOp.funct7 : ShiftOp → BitVec 7
  | slli | srli => 0b0000000#7
  | srai => 0b0100000#7

def RegisterOp.funct3 : RegisterOp → BitVec 3
  | add | sub | mul => 0b000#3
  | sll | mulh => 0b001#3
  | slt | mulhsu => 0b010#3
  | sltu | mulhu => 0b011#3
  | xor | div => 0b100#3
  | srl | sra | divu => 0b101#3
  | or | rem => 0b110#3
  | and | remu => 0b111#3

def RegisterOp.funct7 : RegisterOp → BitVec 7
  | add | sll | slt | sltu | xor | srl | or | and => 0b0000000#7
  | sub | sra => 0b0100000#7
  | mul | mulh | mulhsu | mulhu | div | divu | rem | remu => 0b0000001#7

theorem BranchOp.ofFunct3?_eq_some_iff (minor : BitVec 3) (op : BranchOp) :
    ofFunct3? minor = some op ↔ minor = op.funct3 := by
  revert minor
  cases op <;> decide

theorem LoadOp.ofFunct3?_eq_some_iff (minor : BitVec 3) (op : LoadOp) :
    ofFunct3? minor = some op ↔ minor = op.funct3 := by
  revert minor
  cases op <;> decide

theorem StoreOp.ofFunct3?_eq_some_iff (minor : BitVec 3) (op : StoreOp) :
    ofFunct3? minor = some op ↔ minor = op.funct3 := by
  revert minor
  cases op <;> decide

theorem ImmediateOp.ofFunct3?_eq_some_iff (minor : BitVec 3) (op : ImmediateOp) :
    ofFunct3? minor = some op ↔ minor = op.funct3 := by
  revert minor
  cases op <;> decide

theorem ShiftOp.ofFunct?_eq_some_iff (minor : BitVec 3) (top : BitVec 7) (op : ShiftOp) :
    ofFunct? minor top = some op ↔ minor = op.funct3 ∧ top = op.funct7 := by
  constructor
  · intro found
    unfold ofFunct? at found
    split at found <;> cases found <;> exact ⟨rfl, rfl⟩
  · rintro ⟨rfl, rfl⟩
    cases op <;> rfl

theorem RegisterOp.ofFunct?_eq_some_iff (minor : BitVec 3) (top : BitVec 7) (op : RegisterOp) :
    ofFunct? minor top = some op ↔ minor = op.funct3 ∧ top = op.funct7 := by
  constructor
  · intro found
    unfold ofFunct? at found
    split at found <;> cases found <;> exact ⟨rfl, rfl⟩
  · rintro ⟨rfl, rfl⟩
    cases op <;> rfl

namespace Word

/-- The six fields that a word has in every format. A format without one of the registers or of
the function codes keeps bits of its immediate there. -/
def ofFields (top : BitVec 7) (second first : BitVec 5) (minor : BitVec 3) (target : BitVec 5)
    (opcode : BitVec 7) : Word :=
  top ++ second ++ first ++ minor ++ target ++ opcode

def ofShort (value : Immediate) (rs1 : Register) (minor : BitVec 3) (rd : Register)
    (opcode : BitVec 7) : Word :=
  ofFields (value.extractLsb' 5 7) (value.extractLsb' 0 5) rs1.number minor rd.number opcode

def ofStore (offset : Immediate) (rs2 rs1 : Register) (minor : BitVec 3) (opcode : BitVec 7) :
    Word :=
  ofFields (offset.extractLsb' 5 7) rs2.number rs1.number minor (offset.extractLsb' 0 5) opcode

def ofBranch (offset : Immediate) (rs2 rs1 : Register) (minor : BitVec 3) (opcode : BitVec 7) :
    Word :=
  ofFields (offset.extractLsb' 12 1 ++ offset.extractLsb' 5 6) rs2.number rs1.number minor
    (offset.extractLsb' 1 4 ++ offset.extractLsb' 11 1) opcode

def ofUpper (value : Immediate) (rd : Register) (opcode : BitVec 7) : Word :=
  ofFields (value.extractLsb' 13 7) (value.extractLsb' 8 5) (value.extractLsb' 3 5)
    (value.extractLsb' 0 3) rd.number opcode

/-- Bit 20, in which bit 11 of the offset belongs, is left zero. -/
def ofJump (offset : Immediate) (rd : Register) (opcode : BitVec 7) : Word :=
  ofFields (offset.extractLsb' 20 1 ++ offset.extractLsb' 5 6) (offset.extractLsb' 1 4 ++ 0#1)
    (offset.extractLsb' 15 5) (offset.extractLsb' 12 3) rd.number opcode

theorem getLsbD_ofFields (top : BitVec 7) (second first : BitVec 5) (minor : BitVec 3)
    (target : BitVec 5) (code : BitVec 7) (bit : Nat) :
    (ofFields top second first minor target code).getLsbD bit =
      if bit < 7 then code.getLsbD bit
      else if bit < 12 then target.getLsbD (bit - 7)
      else if bit < 15 then minor.getLsbD (bit - 12)
      else if bit < 20 then first.getLsbD (bit - 15)
      else if bit < 25 then second.getLsbD (bit - 20)
      else top.getLsbD (bit - 25) := by
  simp only [ofFields, BitVec.getLsbD_append]
  grind

theorem extractLsb'_eq_of_bits {word : Word} {start width : Nat} {field : BitVec width}
    (same : ∀ bit, bit < width → word.getLsbD (start + bit) = field.getLsbD bit) :
    word.extractLsb' start width = field := by
  apply BitVec.eq_of_getLsbD_eq
  intro bit inside
  rw [BitVec.getLsbD_extractLsb', same bit inside, decide_eq_true inside, Bool.true_and]

section Fields

variable (top : BitVec 7) (second first : BitVec 5) (minor : BitVec 3) (target : BitVec 5)
  (code : BitVec 7)

theorem opcode_ofFields : opcode (ofFields top second first minor target code) = code := by
  apply extractLsb'_eq_of_bits
  intro bit inside
  grind [getLsbD_ofFields]

theorem rd_ofFields : rd (ofFields top second first minor target code) = ⟨target⟩ := by
  rw [rd, Register.ofIndex_shiftRight]
  apply congrArg Register.mk
  apply extractLsb'_eq_of_bits
  intro bit inside
  grind [getLsbD_ofFields]

theorem funct3_ofFields : funct3 (ofFields top second first minor target code) = minor := by
  apply extractLsb'_eq_of_bits
  intro bit inside
  grind [getLsbD_ofFields]

theorem rs1_ofFields : rs1 (ofFields top second first minor target code) = ⟨first⟩ := by
  rw [rs1, Register.ofIndex_shiftRight]
  apply congrArg Register.mk
  apply extractLsb'_eq_of_bits
  intro bit inside
  grind [getLsbD_ofFields]

theorem rs2_ofFields : rs2 (ofFields top second first minor target code) = ⟨second⟩ := by
  rw [rs2, Register.ofIndex_shiftRight]
  apply congrArg Register.mk
  apply extractLsb'_eq_of_bits
  intro bit inside
  grind [getLsbD_ofFields]

theorem funct7_ofFields : funct7 (ofFields top second first minor target code) = top := by
  apply extractLsb'_eq_of_bits
  intro bit inside
  grind [getLsbD_ofFields]

end Fields

theorem shortImmediate_ofShort (value : Immediate) (rs1 : Register) (minor : BitVec 3)
    (rd : Register) (code : BitVec 7) :
    shortImmediate (ofShort value rs1 minor rd code) = signedField (value.extractLsb' 0 12) := by
  apply congrArg signedField
  apply extractLsb'_eq_of_bits
  intro bit inside
  simp only [ofShort, BitVec.getLsbD_extractLsb', getLsbD_ofFields]
  grind

theorem storeOffset_ofStore (offset : Immediate) (rs2 rs1 : Register) (minor : BitVec 3)
    (code : BitVec 7) :
    storeOffset (ofStore offset rs2 rs1 minor code) = signedField (offset.extractLsb' 0 12) := by
  apply congrArg signedField
  apply BitVec.eq_of_getLsbD_eq
  intro bit inside
  simp only [ofStore, BitVec.getLsbD_append, BitVec.getLsbD_extractLsb', getLsbD_ofFields]
  grind

theorem branchOffset_ofBranch {offset : Immediate} (even : offset.getLsbD 0 = false)
    (rs2 rs1 : Register) (minor : BitVec 3) (code : BitVec 7) :
    branchOffset (ofBranch offset rs2 rs1 minor code) = signedField (offset.extractLsb' 0 13) := by
  apply congrArg signedField
  apply BitVec.eq_of_getLsbD_eq
  intro bit inside
  simp only [ofBranch, BitVec.getLsbD_append, BitVec.getLsbD_extractLsb', getLsbD_ofFields]
  grind

theorem jumpOffset_ofJump {offset : Immediate} (even : offset.getLsbD 0 = false)
    (twice : offset.getLsbD 11 = offset.getLsbD 19) (rd : Register) (code : BitVec 7) :
    jumpOffset (ofJump offset rd code) = signedField (offset.extractLsb' 0 21) := by
  apply congrArg signedField
  apply BitVec.eq_of_getLsbD_eq
  intro bit inside
  simp only [ofJump, BitVec.getLsbD_append, BitVec.getLsbD_extractLsb', getLsbD_ofFields]
  grind

theorem upperImmediate_ofUpper (value : Immediate) (rd : Register) (code : BitVec 7) :
    upperImmediate (ofUpper value rd code) = (value.extractLsb' 0 20).setWidth 32 := by
  apply congrArg (BitVec.setWidth 32)
  apply BitVec.eq_of_getLsbD_eq
  intro bit inside
  simp only [ofUpper, BitVec.getLsbD_extractLsb', getLsbD_ofFields]
  grind

theorem ofFields_fields (word : Word) :
    ofFields word.funct7 word.rs2.number word.rs1.number word.funct3 word.rd.number word.opcode =
      word := by
  apply BitVec.eq_of_getLsbD_eq
  intro bit inside
  simp only [getLsbD_ofFields, funct7, number_rs2, number_rs1, funct3, number_rd, opcode,
    BitVec.getLsbD_extractLsb']
  grind

theorem getLsbD_ofFields_of_not_rs2 (word : Word) {bit : Nat} (read : ¬(20 ≤ bit ∧ bit ≤ 24)) :
    (ofFields word.funct7 0#5 word.rs1.number word.funct3 word.rd.number word.opcode).getLsbD bit =
      word.getLsbD bit := by
  simp only [getLsbD_ofFields, funct7, number_rs1, funct3, number_rd, opcode,
    BitVec.getLsbD_extractLsb']
  grind

theorem ofShort_shortImmediate (word : Word) :
    ofShort word.shortImmediate word.rs1 word.funct3 word.rd word.opcode = word := by
  apply BitVec.eq_of_getLsbD_eq
  intro bit inside
  simp only [ofShort, getLsbD_ofFields, shortImmediate, signedField, funct12, number_rs1, funct3,
    number_rd, opcode, BitVec.getLsbD_extractLsb', BitVec.getLsbD_signExtend]
  grind

theorem ofStore_storeOffset (word : Word) :
    ofStore word.storeOffset word.rs2 word.rs1 word.funct3 word.opcode = word := by
  apply BitVec.eq_of_getLsbD_eq
  intro bit inside
  simp only [ofStore, getLsbD_ofFields, storeOffset, signedField, number_rs2, number_rs1, funct3,
    opcode, BitVec.getLsbD_extractLsb', BitVec.getLsbD_signExtend, BitVec.getLsbD_append]
  grind

theorem ofBranch_branchOffset (word : Word) :
    ofBranch word.branchOffset word.rs2 word.rs1 word.funct3 word.opcode = word := by
  apply BitVec.eq_of_getLsbD_eq
  intro bit inside
  simp only [ofBranch, getLsbD_ofFields, branchOffset, signedField, number_rs2, number_rs1, funct3,
    opcode, BitVec.getLsbD_extractLsb', BitVec.getLsbD_signExtend, BitVec.getLsbD_append]
  grind

theorem ofUpper_upperImmediate (word : Word) :
    ofUpper word.upperImmediate word.rd word.opcode = word := by
  apply BitVec.eq_of_getLsbD_eq
  intro bit inside
  simp only [ofUpper, getLsbD_ofFields, upperImmediate, number_rd, opcode,
    BitVec.getLsbD_extractLsb', BitVec.getLsbD_setWidth]
  grind

theorem getLsbD_ofJump_jumpOffset (word : Word) {bit : Nat} (read : bit ≠ 20) :
    (ofJump word.jumpOffset word.rd word.opcode).getLsbD bit = word.getLsbD bit := by
  simp only [ofJump, getLsbD_ofFields, jumpOffset, signedField, number_rd, opcode,
    BitVec.getLsbD_extractLsb', BitVec.getLsbD_signExtend, BitVec.getLsbD_append]
  grind

end Word

namespace Instruction

/-- The word of an instruction. Bits that are not read are zero. -/
def encode : Instruction → Word
  | lui rd value => .ofUpper value rd 0b0110111#7
  | auipc rd value => .ofUpper value rd 0b0010111#7
  | jal rd offset => .ofJump offset rd 0b1101111#7
  | jalr rd rs1 offset => .ofShort offset rs1 0b000#3 rd 0b1100111#7
  | branch op rs1 rs2 offset => .ofBranch offset rs2 rs1 op.funct3 0b1100011#7
  | load op rd rs1 offset => .ofShort offset rs1 op.funct3 rd 0b0000011#7
  | store op rs1 rs2 offset => .ofStore offset rs2 rs1 op.funct3 0b0100011#7
  | immediate op rd rs1 value => .ofShort value rs1 op.funct3 rd 0b0010011#7
  | shift op rd rs1 _ => .ofFields op.funct7 0#5 rs1.number op.funct3 rd.number 0b0010011#7
  | register op rd rs1 rs2 =>
    .ofFields op.funct7 rs2.number rs1.number op.funct3 rd.number 0b0110011#7
  | fence => 0x0000000f#32
  | ecall => 0x00000073#32
  | ebreak => 0x00100073#32
  | unknown => 0#32

inductive Kind where
  | lui | auipc | jal | jalr | branch | load | store | immediate | shift | register
  | fence | ecall | ebreak | unknown
  deriving DecidableEq, Repr

def kind : Instruction → Kind
  | lui .. => .lui
  | auipc .. => .auipc
  | jal .. => .jal
  | jalr .. => .jalr
  | branch .. => .branch
  | load .. => .load
  | store .. => .store
  | immediate .. => .immediate
  | shift .. => .shift
  | register .. => .register
  | fence => .fence
  | ecall => .ecall
  | ebreak => .ebreak
  | unknown => .unknown

/-- The bits of a word on which the instruction read from it does not depend. -/
def Kind.Ignores : Kind → Nat → Prop
  | jal, bit => bit = 20
  | shift, bit => 20 ≤ bit ∧ bit ≤ 24
  | fence, bit => 7 ≤ bit ∧ bit ≤ 31
  | ecall, bit | ebreak, bit => 15 ≤ bit ∧ bit ≤ 19
  | _, _ => False

def amountOf : ShiftOp → Immediate
  | .slli | .srli => 0
  | .srai => 32

/-- An instruction whose numbers fit into its word. -/
def WellFormed : Instruction → Prop
  | lui _ value | auipc _ value => 0 ≤ value.toInt ∧ value.toInt ≤ 2 ^ 20 - 1
  | jal _ offset =>
    2 ∣ offset.toInt ∧ -2 ^ 20 ≤ offset.toInt ∧ offset.toInt < 2 ^ 20 ∧
      offset.getLsbD 11 = offset.getLsbD 19
  | branch _ _ _ offset => 2 ∣ offset.toInt ∧ -4096 ≤ offset.toInt ∧ offset.toInt ≤ 4094
  | jalr _ _ value | load _ _ _ value | store _ _ _ value | immediate _ _ _ value =>
    -2048 ≤ value.toInt ∧ value.toInt ≤ 2047
  | shift op _ _ amount => amount = amountOf op
  | register .. | fence | ecall | ebreak | unknown => True

end Instruction

end RiscvListing
