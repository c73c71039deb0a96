import RiscvListing.Instruction.Render
import RiscvListing.Proofs.Guarded.Machine

namespace RiscvListing.Guarded

def signed (value : Word) (width : Nat) : Guarded Immediate := do
  guarded .outOfRange (1 ≤ width ∧ width ≤ 32) ()
  let range ← shiftLeft 1 width
  let mask ← sub range 1
  let low := value.toNat &&& mask
  let half ← shiftLeft 1 (← sub width 1)
  if half ≤ low then
    let negative ← subSigned low range
    narrow negative
  else narrow low

theorem yields_shiftLeft_one {amount : Nat} (few : amount ≤ 32) :
    Yields (shiftLeft 1 amount) (.ok (2 ^ amount)) := by
  have bound : 2 ^ amount ≤ 2 ^ 32 := Nat.pow_le_pow_right (by decide) few
  have power : 1 <<< amount % 2 ^ 64 = 2 ^ amount := by
    rw [Nat.one_shiftLeft, Nat.mod_eq_of_lt (by omega)]
  rw [← power]
  exact yields_guarded (by omega) _

theorem signed_eq_ofInt (value : Word) (width : Nat) :
    Word.signed value width =
      BitVec.ofInt 32
        (if 2 * (value.toNat % 2 ^ width) < 2 ^ width then (value.toNat % 2 ^ width : Nat)
        else (value.toNat % 2 ^ width : Nat) - (2 ^ width : Nat)) := by
  rw [Word.signed, signedField, BitVec.signExtend, BitVec.toInt_eq_toNat_cond,
    BitVec.toNat_setWidth]

theorem yields_signed {width : Nat} (positive : 1 ≤ width) (few : width ≤ 32) (value : Word) :
    Yields (signed value width) (.ok (Word.signed value width)) := by
  obtain ⟨less, rfl⟩ : ∃ less, width = less + 1 := ⟨width - 1, by omega⟩
  have double : 2 ^ (less + 1) = 2 * 2 ^ less := by
    rw [Nat.pow_succ, Nat.mul_comm]
  have bound : 2 ^ less ≤ 2 ^ 31 := Nat.pow_le_pow_right (by decide) (by omega)
  have least : 0 < 2 ^ less := Nat.two_pow_pos less
  have low : value.toNat &&& (2 ^ (less + 1) - 1) = value.toNat % 2 ^ (less + 1) :=
    Nat.and_two_pow_sub_one_eq_mod _ _
  have small : value.toNat % 2 ^ (less + 1) < 2 ^ (less + 1) :=
    Nat.mod_lt _ (Nat.two_pow_pos _)
  rw [signed_eq_ofInt, signed]
  refine (yields_guarded ⟨positive, few⟩ ()).next ?_
  refine (yields_shiftLeft_one few).next ?_
  refine (yields_sub (Nat.two_pow_pos _)).next ?_
  refine (yields_sub positive).next ?_
  refine (yields_shiftLeft_one (by omega)).next ?_
  rw [Nat.add_sub_cancel, low]
  generalize value.toNat % 2 ^ (less + 1) = rest at *
  by_cases negative : 2 ^ less ≤ rest
  · rw [if_pos negative, if_neg (by omega)]
    refine (yields_subSigned (by omega) (by omega)).next ?_
    exact yields_narrow (by omega) (by omega)
  · rw [if_neg negative, if_pos (by omega)]
    exact yields_narrow (by omega) (by omega)

theorem signed_setWidth {width : Nat} (few : width ≤ 32) (bits : BitVec width) :
    Word.signed (bits.setWidth 32) width = signedField bits := by
  rw [Word.signed, BitVec.setWidth_setWidth_of_le _ few, BitVec.setWidth_eq]

def field {width : Nat} (bits : BitVec width) : Guarded Immediate :=
  signed (bits.setWidth 32) width

theorem field_eq {width : Nat} (positive : 1 ≤ width) (few : width ≤ 32) (bits : BitVec width) :
    field bits = pure (signedField bits) := by
  rw [← signed_setWidth few]
  exact eq_pure_of_yields (yields_signed positive few _)

def upperImmediate (word : Word) : Guarded Immediate :=
  signed ((word.extractLsb' 12 20).setWidth 32) 21

/-- The twenty bits are read as the low ones of 21, so that the number is never negative. -/
theorem upperImmediate_eq (word : Word) : upperImmediate word = pure word.upperImmediate := by
  have small : ((word.extractLsb' 12 20).setWidth 32).toNat < 2 ^ 20 := by
    rw [BitVec.toNat_setWidth]
    have bound := (word.extractLsb' 12 20).isLt
    omega
  have same : Word.signed ((word.extractLsb' 12 20).setWidth 32) 21 = word.upperImmediate := by
    rw [signed_eq_ofInt, Nat.mod_eq_of_lt (by omega), if_pos (by omega), Word.upperImmediate,
      BitVec.ofInt_natCast, BitVec.ofNat_toNat, BitVec.setWidth_eq]
  rw [← same]
  exact eq_pure_of_yields (yields_signed (by decide) (by decide) _)

def decodeImmediate (word : Word) : Guarded Instruction := do
  let value ← field word.funct12
  match ImmediateOp.ofFunct3? word.funct3 with
  | some op => return .immediate op word.rd word.rs1 value
  | none =>
    match ShiftOp.ofFunct? word.funct3 word.funct7 with
    | some op => return .shift op word.rd word.rs1 (value.sshiftRight 5)
    | none => return .unknown

def decode (word : Word) : Guarded Instruction :=
  match word.opcode with
  | 0b0110111#7 => return .lui word.rd (← upperImmediate word)
  | 0b0010111#7 => return .auipc word.rd (← upperImmediate word)
  | 0b1101111#7 =>
    return .jal word.rd (← field (word.extractLsb' 31 1 ++ word.extractLsb' 12 8 ++
      word.extractLsb' 19 1 ++ word.extractLsb' 21 10 ++ 0#1))
  | 0b1100111#7 =>
    if word.funct3 = 0#3 then return .jalr word.rd word.rs1 (← field word.funct12)
    else return .unknown
  | 0b1100011#7 =>
    match BranchOp.ofFunct3? word.funct3 with
    | some op =>
      return .branch op word.rs1 word.rs2 (← field (word.extractLsb' 31 1 ++
        word.extractLsb' 7 1 ++ word.extractLsb' 25 6 ++ word.extractLsb' 8 4 ++ 0#1))
    | none => return .unknown
  | 0b0000011#7 =>
    match LoadOp.ofFunct3? word.funct3 with
    | some op => return .load op word.rd word.rs1 (← field word.funct12)
    | none => return .unknown
  | 0b0100011#7 =>
    match StoreOp.ofFunct3? word.funct3 with
    | some op =>
      return .store op word.rs1 word.rs2
        (← field (word.extractLsb' 25 7 ++ word.extractLsb' 7 5))
    | none => return .unknown
  | 0b0010011#7 => decodeImmediate word
  | 0b0110011#7 =>
    match RegisterOp.ofFunct? word.funct3 word.funct7 with
    | some op => return .register op word.rd word.rs1 word.rs2
    | none => return .unknown
  | 0b0001111#7 => return .fence
  | 0b1110011#7 => return .decodeSystem word
  | _ => return .unknown

theorem decodeImmediate_eq (word : Word) :
    decodeImmediate word = pure (.decodeImmediate word) := by
  rw [decodeImmediate, field_eq (by decide) (by decide), pure_bind, Instruction.decodeImmediate]
  cases ImmediateOp.ofFunct3? word.funct3 with
  | some op => rfl
  | none =>
    cases ShiftOp.ofFunct? word.funct3 word.funct7 with
    | some op => rfl
    | none => rfl

theorem decode_eq (word : Word) : decode word = pure (.decode word) := by
  unfold decode Instruction.decode
  simp only [upperImmediate_eq, decodeImmediate_eq]
  generalize word.opcode = opcode
  split
  · rfl
  · rfl
  · rw [field_eq (by decide) (by decide)]
    rfl
  · rw [field_eq (by decide) (by decide)]
    split <;> rfl
  · rw [field_eq (by decide) (by decide)]
    cases BranchOp.ofFunct3? word.funct3 <;> rfl
  · rw [field_eq (by decide) (by decide)]
    cases LoadOp.ofFunct3? word.funct3 <;> rfl
  · rw [field_eq (by decide) (by decide)]
    cases StoreOp.ofFunct3? word.funct3 <;> rfl
  · rfl
  · cases RegisterOp.ofFunct? word.funct3 word.funct7 <;> rfl
  · rfl
  · rfl
  · simp_all

def registerName (register : Register) : Guarded String :=
  element Register.names.toArray register.number.toNat

theorem registerName_eq (register : Register) : registerName register = pure register.name := by
  have inside : register.number.toNat < Register.names.toArray.size := register.number.isLt
  apply eq_pure_of_yields
  exact yields_element (Array.getElem?_eq_getElem inside)

def baseOperand (offset : Immediate) (base : Register) : Guarded String :=
  return Text.signedDecimal offset.toInt ++ "(" ++ (← registerName base) ++ ")"

theorem baseOperand_eq (offset : Immediate) (base : Register) :
    baseOperand offset base = pure (Instruction.baseOperand offset base) := by
  rw [baseOperand, registerName_eq, pure_bind, Instruction.baseOperand]

def operands (labels : Labels) (address : Address) : Instruction → Guarded String
  | .lui rd value => return (← registerName rd) ++ ", 0x" ++ Text.hex value.toNat
  | .auipc rd value => return (← registerName rd) ++ ", " ++ Text.signedDecimal value.toInt
  | .jal rd offset =>
    return (← registerName rd) ++ ", " ++ Text.signedDecimal offset.toInt ++
      Instruction.targetSuffix labels (address + offset)
  | .jalr rd rs1 offset => return (← registerName rd) ++ ", " ++ (← baseOperand offset rs1)
  | .branch _ rs1 rs2 offset =>
    return (← registerName rs1) ++ ", " ++ (← registerName rs2) ++ ", 0x" ++
      Text.hex (address + offset).toNat ++ Instruction.targetSuffix labels (address + offset)
  | .load _ rd rs1 offset => return (← registerName rd) ++ ", " ++ (← baseOperand offset rs1)
  | .store _ rs1 rs2 offset => return (← registerName rs2) ++ ", " ++ (← baseOperand offset rs1)
  | .immediate _ rd rs1 value =>
    return (← registerName rd) ++ ", " ++ (← registerName rs1) ++ ", " ++
      Text.signedDecimal value.toInt
  | .shift _ rd rs1 amount =>
    return (← registerName rd) ++ ", " ++ (← registerName rs1) ++ ", " ++
      Text.signedDecimal amount.toInt
  | .register _ rd rs1 rs2 =>
    return (← registerName rd) ++ ", " ++ (← registerName rs1) ++ ", " ++ (← registerName rs2)
  | .fence | .ecall | .ebreak | .unknown => return ""

theorem operands_eq (labels : Labels) (address : Address) (instruction : Instruction) :
    operands labels address instruction = pure (instruction.operands labels address) := by
  cases instruction
  all_goals
    simp only [operands, registerName_eq, baseOperand_eq, pure_bind, Instruction.operands]

def render (labels : Labels) (address : Address) (instruction : Instruction) : Guarded String :=
  if instruction = .unknown then return instruction.mnemonic
  else
    return Text.alignRight 7 instruction.mnemonic ' ' ++ "\t" ++
      (← operands labels address instruction)

theorem render_eq (labels : Labels) (address : Address) (instruction : Instruction) :
    render labels address instruction = pure (instruction.render labels address) := by
  rw [render, operands_eq, pure_bind, Instruction.render]
  split
  · rfl
  · rfl

end RiscvListing.Guarded
