import Mathlib.Data.Bool.Basic
import RiscvListing.Proofs.Instruction.Standard

namespace RiscvListing

namespace Standard

theorem getLsbD_sign (count : Nat) (word : Word) (bit : Nat) :
    (sign count word).getLsbD bit = (decide (bit < count) && word.getLsbD 31) := by
  simp only [sign, BitVec.getLsbD_replicate, BitVec.getLsbD_extractLsb]
  have only : bit % (31 - 31 + 1) = 0 := Nat.mod_one bit
  rw [only]
  simp

theorem uImmediate_eq (word : Word) : uImmediate word = word.upperImmediate := by
  apply BitVec.eq_of_getLsbD_eq
  intro bit inside
  simp only [uImmediate, Word.upperImmediate, BitVec.getLsbD_append, BitVec.getLsbD_extractLsb,
    BitVec.getLsbD_setWidth, BitVec.getLsbD_extractLsb']
  grind

theorem iImmediate_eq (word : Word) : iImmediate word = word.shortImmediate := by
  apply BitVec.eq_of_getLsbD_eq
  intro bit inside
  simp only [iImmediate, Word.shortImmediate, Word.funct12, signedField, BitVec.getLsbD_append,
    BitVec.getLsbD_extractLsb, getLsbD_sign, BitVec.getLsbD_signExtend,
    BitVec.msb_eq_getLsbD_last, BitVec.getLsbD_extractLsb']
  grind

theorem sImmediate_eq (word : Word) : sImmediate word = word.storeOffset := by
  apply BitVec.eq_of_getLsbD_eq
  intro bit inside
  simp only [sImmediate, Word.storeOffset, signedField, BitVec.getLsbD_append,
    BitVec.getLsbD_extractLsb, getLsbD_sign, BitVec.getLsbD_signExtend,
    BitVec.msb_eq_getLsbD_last, BitVec.getLsbD_extractLsb']
  grind

theorem bImmediate_eq (word : Word) : bImmediate word = word.branchOffset := by
  apply BitVec.eq_of_getLsbD_eq
  intro bit inside
  simp only [bImmediate, Word.branchOffset, signedField, BitVec.getLsbD_append,
    BitVec.getLsbD_extractLsb, getLsbD_sign, BitVec.getLsbD_signExtend,
    BitVec.msb_eq_getLsbD_last, BitVec.getLsbD_extractLsb']
  grind

theorem jImmediate_bit (word : Word) : (jImmediate word).getLsbD 11 = word.getLsbD 20 := by
  simp only [jImmediate, BitVec.getLsbD_append, BitVec.getLsbD_extractLsb]
  grind

theorem jumpOffset_bit (word : Word) (bit : Nat) :
    word.jumpOffset.getLsbD bit =
      if bit = 11 then word.getLsbD 19 else (jImmediate word).getLsbD bit := by
  simp only [jImmediate, Word.jumpOffset, signedField, BitVec.getLsbD_append,
    BitVec.getLsbD_extractLsb, getLsbD_sign, BitVec.getLsbD_signExtend,
    BitVec.msb_eq_getLsbD_last, BitVec.getLsbD_extractLsb']
  grind

theorem jumpOffset_eq_iff (word : Word) :
    word.jumpOffset = jImmediate word ↔ word.getLsbD 19 = word.getLsbD 20 := by
  constructor
  · intro same
    have eleven := jumpOffset_bit word 11
    rw [if_pos rfl, same, jImmediate_bit] at eleven
    exact eleven.symm
  · intro same
    apply BitVec.eq_of_getLsbD_eq
    intro bit inside
    rw [jumpOffset_bit]
    by_cases eleven : bit = 11
    · rw [if_pos eleven, eleven, jImmediate_bit, same]
    · rw [if_neg eleven]

theorem listed_shiftAmount (word : Word) : word.shiftAmount = signedField word.funct7 := by
  apply BitVec.eq_of_getLsbD_eq
  intro bit inside
  simp only [Word.shiftAmount, Word.shortImmediate, Word.funct12, Word.funct7, signedField,
    BitVec.getLsbD_sshiftRight, BitVec.getLsbD_signExtend, BitVec.msb_eq_getLsbD_last,
    BitVec.getLsbD_extractLsb']
  grind

theorem toNat_shiftAmount (word : Word) :
    (shiftAmount word).toNat = (word.extractLsb' 20 5).toNat := by
  rw [shiftAmount, BitVec.toNat_append]
  simp [BitVec.extractLsb]

theorem shiftAmount_eq_zero_iff (word : Word) :
    shiftAmount word = 0#32 ↔ word.extractLsb' 20 5 = 0#5 := by
  rw [← BitVec.toNat_inj, toNat_shiftAmount, ← BitVec.toNat_inj]
  rfl

theorem shiftAmount_ne (word : Word) : shiftAmount word ≠ 32#32 := by
  intro same
  have value := congrArg BitVec.toNat same
  have bound := (word.extractLsb' 20 5).isLt
  rw [toNat_shiftAmount] at value
  change (word.extractLsb' 20 5).toNat = 32 at value
  omega

theorem word_eq_fields (word : Word) :
    word = word.funct12 ++ word.rs1.number ++ word.funct3 ++ word.rd.number ++ word.opcode := by
  apply BitVec.eq_of_getLsbD_eq
  intro bit inside
  simp only [Word.funct12, Word.number_rs1, Word.funct3, Word.number_rd, Word.opcode,
    BitVec.getLsbD_append,
    BitVec.getLsbD_extractLsb']
  grind

section Rows

variable {word : Word}

theorem decode_lui (same : word.opcode = 0b0110111#7) :
    Instruction.decode word = decode word := by
  have rows : rowsOf 0b0110111#7 =
    [⟨.opcode 0b0110111#7, fun word => .lui (rd word) (uImmediate word)⟩] := rfl
  rw [decode_of_opcode_row same rows, uImmediate_eq]
  simp only [Instruction.decode, same]
  rfl

theorem decode_auipc (same : word.opcode = 0b0010111#7) :
    Instruction.decode word = decode word := by
  have rows : rowsOf 0b0010111#7 =
    [⟨.opcode 0b0010111#7, fun word => .auipc (rd word) (uImmediate word)⟩] := rfl
  rw [decode_of_opcode_row same rows, uImmediate_eq]
  simp only [Instruction.decode, same]
  rfl

theorem decode_jalr (same : word.opcode = 0b1100111#7) :
    Instruction.decode word = decode word := by
  have rows : rowsOf 0b1100111#7 =
    [⟨.funct3 0b000#3 0b1100111#7,
      fun word => .jalr (rd word) (rs1 word) (iImmediate word)⟩] := rfl
  rw [decode_of_funct3_row same rows, iImmediate_eq]
  simp only [Instruction.decode, same]
  rfl

theorem decode_branch (same : word.opcode = 0b1100011#7) :
    Instruction.decode word = decode word := by
  have rows : rowsOf 0b1100011#7 =
    family 0b1100011#7 (fun op word => .branch op (rs1 word) (rs2 word) (bImmediate word))
      branches := rfl
  rw [decode_of_family same rows, lookup_branches, bImmediate_eq]
  simp only [Instruction.decode, same]
  cases BranchOp.ofFunct3? word.funct3 <;> rfl

theorem decode_load (same : word.opcode = 0b0000011#7) :
    Instruction.decode word = decode word := by
  have rows : rowsOf 0b0000011#7 =
    family 0b0000011#7 (fun op word => .load op (rd word) (rs1 word) (iImmediate word))
      loads := rfl
  rw [decode_of_family same rows, lookup_loads, iImmediate_eq]
  simp only [Instruction.decode, same]
  cases LoadOp.ofFunct3? word.funct3 <;> rfl

theorem decode_store (same : word.opcode = 0b0100011#7) :
    Instruction.decode word = decode word := by
  have rows : rowsOf 0b0100011#7 =
    family 0b0100011#7 (fun op word => .store op (rs1 word) (rs2 word) (sImmediate word))
      stores := rfl
  rw [decode_of_family same rows, lookup_stores, sImmediate_eq]
  simp only [Instruction.decode, same]
  cases StoreOp.ofFunct3? word.funct3 <;> rfl

theorem decode_register (same : word.opcode = 0b0110011#7) :
    Instruction.decode word = decode word := by
  have rows : rowsOf 0b0110011#7 =
    wideFamily 0b0110011#7 (fun op word => .register op (rd word) (rs1 word) (rs2 word))
      registers := rfl
  rw [decode_of_opcode same, rows, findSome?_wideFamily _ _ same, lookup_registers]
  simp only [Instruction.decode, same]
  cases RegisterOp.ofFunct? word.funct3 word.funct7 <;> rfl

theorem decode_jump (same : word.opcode = 0b1101111#7) :
    decode word = .jal word.rd (jImmediate word) := by
  have rows : rowsOf 0b1101111#7 =
    [⟨.opcode 0b1101111#7, fun word => .jal (rd word) (jImmediate word)⟩] := rfl
  exact decode_of_opcode_row same rows

theorem decode_fence (same : word.opcode = 0b0001111#7) :
    decode word = if word.funct3 = 0#3 then .fence else .unknown := by
  have rows : rowsOf 0b0001111#7 = [⟨.funct3 0b000#3 0b0001111#7, fun _ => .fence⟩] := rfl
  exact decode_of_funct3_row same rows

theorem decode_immediate (same : word.opcode = 0b0010011#7) :
    decode word =
      match ImmediateOp.ofFunct3? word.funct3, ShiftOp.ofFunct? word.funct3 word.funct7 with
      | some op, _ => .immediate op word.rd word.rs1 word.shortImmediate
      | none, some op => .shift op word.rd word.rs1 (shiftAmount word)
      | none, none => .unknown := by
  have rows : rowsOf 0b0010011#7 =
    family 0b0010011#7 (fun op word => .immediate op (rd word) (rs1 word) (iImmediate word))
      immediates ++
    wideFamily 0b0010011#7 (fun op word => .shift op (rd word) (rs1 word) (shiftAmount word))
      shifts := rfl
  rw [decode_of_opcode same, rows, List.findSome?_append, findSome?_family _ _ same,
    findSome?_wideFamily _ _ same, lookup_immediates, lookup_shifts, iImmediate_eq]
  cases ImmediateOp.ofFunct3? word.funct3 <;>
    cases ShiftOp.ofFunct? word.funct3 word.funct7 <;> rfl

theorem decode_system (same : word.opcode = 0b1110011#7) :
    decode word =
      if word = 0x00000073#32 then .ecall
      else if word = 0x00100073#32 then .ebreak
      else .unknown := by
  have rows : rowsOf 0b1110011#7 =
    [⟨.whole 0x00000073#32, fun _ => .ecall⟩, ⟨.whole 0x00100073#32, fun _ => .ebreak⟩] := rfl
  rw [decode_of_opcode same, rows, List.findSome?_cons, List.findSome?_cons, decode?_whole,
    decode?_whole]
  by_cases call : word = 0x00000073#32
  · rw [if_pos call, if_pos call]
    rfl
  by_cases pause : word = 0x00100073#32
  · rw [if_neg call, if_neg call, if_pos pause, if_pos pause]
    rfl
  · rw [if_neg call, if_neg call, if_neg pause, if_neg pause]
    rfl

end Rows

def majors : List (BitVec 7) :=
  [0b0110111, 0b0010111, 0b1101111, 0b1100111, 0b1100011, 0b0000011, 0b0100011, 0b0010011,
    0b0110011, 0b0001111, 0b1110011]

theorem major_of_mem_listing : ∀ row ∈ listing, row.pattern.major ∈ majors := by
  decide

theorem decode_unlisted {word : Word} (unlisted : word.opcode ∉ majors) :
    decode word = .unknown := by
  have rows : rowsOf word.opcode = [] := by
    rw [rowsOf, List.filter_eq_nil_iff]
    intro row member same
    apply unlisted
    rw [← beq_iff_eq.mp same]
    exact major_of_mem_listing row member
  rw [decode_of_opcode rfl, rows]
  rfl

end Standard

namespace Word

/-- A jump whose bits 19 and 20 differ: the listing reads the first one twice. -/
def SkewedJump (word : Word) : Prop :=
  word.opcode = 0b1101111#7 ∧ word.getLsbD 19 ≠ word.getLsbD 20
  deriving Decidable

/-- A logical shift by a constant other than zero. -/
def LogicalShift (word : Word) : Prop :=
  word.opcode = 0b0010011#7 ∧ (word.funct3 = 0b001#3 ∨ word.funct3 = 0b101#3) ∧
    word.funct7 = 0b0000000#7 ∧ word.extractLsb' 20 5 ≠ 0#5
  deriving Decidable

def ArithmeticShift (word : Word) : Prop :=
  word.opcode = 0b0010011#7 ∧ word.funct3 = 0b101#3 ∧ word.funct7 = 0b0100000#7
  deriving Decidable

def LooseFence (word : Word) : Prop :=
  word.opcode = 0b0001111#7 ∧ word.funct3 ≠ 0#3
  deriving Decidable

/-- A system word with a source register, which no instruction has. -/
def LooseSystem (word : Word) : Prop :=
  word.opcode = 0b1110011#7 ∧ word.funct3 = 0#3 ∧ word.rd = ⟨0#5⟩ ∧
    (word.funct12 = 0#12 ∨ word.funct12 = 1#12) ∧ word.rs1 ≠ ⟨0#5⟩
  deriving Decidable

/-- The words that are listed as another instruction than the one they stand for. -/
def Misread (word : Word) : Prop :=
  word.SkewedJump ∨ word.LogicalShift ∨ word.ArithmeticShift ∨ word.LooseFence ∨ word.LooseSystem
  deriving Decidable

theorem shiftAmount_logical {word : Word} (logical : word.funct7 = 0b0000000#7) :
    word.shiftAmount = 0#32 := by
  rw [Standard.listed_shiftAmount, logical]
  decide

theorem shiftAmount_arithmetic {word : Word} (arithmetic : word.funct7 = 0b0100000#7) :
    word.shiftAmount = 32#32 := by
  rw [Standard.listed_shiftAmount, arithmetic]
  decide

end Word

open Word Standard

theorem decode_eq_of_plain {word : Word} (jump : word.opcode ≠ 0b1101111#7)
    (immediate : word.opcode ≠ 0b0010011#7) (fence : word.opcode ≠ 0b0001111#7)
    (system : word.opcode ≠ 0b1110011#7) : Instruction.decode word = Standard.decode word := by
  by_cases lui : word.opcode = 0b0110111#7
  · exact decode_lui lui
  by_cases auipc : word.opcode = 0b0010111#7
  · exact decode_auipc auipc
  by_cases jalr : word.opcode = 0b1100111#7
  · exact decode_jalr jalr
  by_cases branch : word.opcode = 0b1100011#7
  · exact decode_branch branch
  by_cases load : word.opcode = 0b0000011#7
  · exact decode_load load
  by_cases store : word.opcode = 0b0100011#7
  · exact decode_store store
  by_cases register : word.opcode = 0b0110011#7
  · exact decode_register register
  have listed : Instruction.decode word = .unknown := by
    unfold Instruction.decode
    split <;> first | rfl | contradiction
  rw [listed, decode_unlisted]
  simp only [majors, List.mem_cons, List.not_mem_nil, not_or, not_false_eq_true, and_true]
  exact ⟨lui, auipc, jump, jalr, branch, load, store, immediate, register, fence, system⟩

theorem ShiftOp.ofFunct?_eq_some {minor : BitVec 3} {top : BitVec 7} {op : ShiftOp}
    (found : ShiftOp.ofFunct? minor top = some op) :
    (minor = 0b001#3 ∧ top = 0b0000000#7 ∧ op = .slli) ∨
      (minor = 0b101#3 ∧ top = 0b0000000#7 ∧ op = .srli) ∨
      (minor = 0b101#3 ∧ top = 0b0100000#7 ∧ op = .srai) := by
  unfold ShiftOp.ofFunct? at found
  split at found
  · exact .inl ⟨rfl, rfl, (Option.some.inj found).symm⟩
  · exact .inr (.inl ⟨rfl, rfl, (Option.some.inj found).symm⟩)
  · exact .inr (.inr ⟨rfl, rfl, (Option.some.inj found).symm⟩)
  · contradiction

theorem decode_shift {word : Word} (same : word.opcode = 0b0010011#7) {op : ShiftOp}
    (found : ShiftOp.ofFunct? word.funct3 word.funct7 = some op) :
    Instruction.decode word = .shift op word.rd word.rs1 word.shiftAmount ∧
      Standard.decode word = .shift op word.rd word.rs1 (Standard.shiftAmount word) := by
  have none : ImmediateOp.ofFunct3? word.funct3 = none := by
    rcases ShiftOp.ofFunct?_eq_some found with ⟨minor, -⟩ | ⟨minor, -⟩ | ⟨minor, -⟩ <;>
      rw [minor] <;> rfl
  constructor
  · simp only [Instruction.decode, same, Instruction.decodeImmediate, none, found]
  · simp only [decode_immediate same, none, found]

theorem decode_eq_of_unshifted {word : Word} (same : word.opcode = 0b0010011#7)
    (unshifted : ShiftOp.ofFunct? word.funct3 word.funct7 = none) :
    Instruction.decode word = Standard.decode word := by
  rw [decode_immediate same]
  simp only [Instruction.decode, same, Instruction.decodeImmediate, unshifted]
  cases ImmediateOp.ofFunct3? word.funct3 <;> rfl

theorem decode_of_logicalShift {word : Word} (logical : word.LogicalShift) :
    ∃ op, op ≠ .srai ∧ Instruction.decode word = .shift op word.rd word.rs1 0#32 ∧
      Standard.decode word = .shift op word.rd word.rs1 (Standard.shiftAmount word) := by
  obtain ⟨same, minor, top, -⟩ := logical
  rw [← shiftAmount_logical top]
  rcases minor with minor | minor
  · exact ⟨.slli, by decide, decode_shift same (by rw [minor, top]; rfl)⟩
  · exact ⟨.srli, by decide, decode_shift same (by rw [minor, top]; rfl)⟩

theorem decode_of_arithmeticShift {word : Word} (arithmetic : word.ArithmeticShift) :
    Instruction.decode word = .shift .srai word.rd word.rs1 32#32 ∧
      Standard.decode word = .shift .srai word.rd word.rs1 (Standard.shiftAmount word) := by
  obtain ⟨same, minor, top⟩ := arithmetic
  rw [← shiftAmount_arithmetic top]
  exact decode_shift same (by rw [minor, top]; rfl)

theorem decode_of_looseFence {word : Word} (loose : word.LooseFence) :
    Instruction.decode word = .fence ∧ Standard.decode word = .unknown := by
  obtain ⟨same, nonzero⟩ := loose
  constructor
  · simp only [Instruction.decode, same]
  · rw [decode_fence same, if_neg nonzero]

theorem decode_of_looseSystem {word : Word} (loose : word.LooseSystem) :
    Instruction.decode word = (if word.funct12 = 0#12 then .ecall else .ebreak) ∧
      Standard.decode word = .unknown := by
  obtain ⟨same, minor, target, number, source⟩ := loose
  constructor
  · simp only [Instruction.decode, same, Instruction.decodeSystem, minor, target, and_self]
    rcases number with number | number <;> rw [number] <;> rfl
  · rw [decode_system same, if_neg, if_neg]
    · intro pause
      rw [pause] at source
      exact source rfl
    · intro call
      rw [call] at source
      exact source rfl

theorem decode_of_skewedJump {word : Word} (skewed : word.SkewedJump) :
    Instruction.decode word = .jal word.rd word.jumpOffset ∧
      Standard.decode word = .jal word.rd (jImmediate word) := by
  constructor
  · simp only [Instruction.decode, skewed.1]
  · exact decode_jump skewed.1

theorem decode_ne_of_misread {word : Word} (misread : word.Misread) :
    Instruction.decode word ≠ Standard.decode word := by
  rcases misread with skewed | logical | arithmetic | fence | system
  · obtain ⟨listed, standard⟩ := decode_of_skewedJump skewed
    rw [listed, standard]
    intro equal
    exact skewed.2 ((jumpOffset_eq_iff word).mp (Instruction.jal.inj equal).2)
  · obtain ⟨op, -, listed, standard⟩ := decode_of_logicalShift logical
    rw [listed, standard]
    intro equal
    obtain ⟨-, -, -, nonzero⟩ := logical
    exact nonzero ((shiftAmount_eq_zero_iff word).mp (Instruction.shift.inj equal).2.2.2.symm)
  · obtain ⟨listed, standard⟩ := decode_of_arithmeticShift arithmetic
    rw [listed, standard]
    intro equal
    exact shiftAmount_ne word (Instruction.shift.inj equal).2.2.2.symm
  · obtain ⟨listed, standard⟩ := decode_of_looseFence fence
    rw [listed, standard]
    exact Instruction.noConfusion
  · obtain ⟨listed, standard⟩ := decode_of_looseSystem system
    rw [listed, standard]
    split <;> exact Instruction.noConfusion

theorem eq_of_strict_system {word : Word} (same : word.opcode = 0b1110011#7)
    (strict : ¬word.LooseSystem) (minor : word.funct3 = 0#3) (target : word.rd = ⟨0#5⟩)
    (number : word.funct12 = 0#12 ∨ word.funct12 = 1#12) :
    word = word.funct12 ++ 0#5 ++ 0#3 ++ 0#5 ++ 0b1110011#7 := by
  have source : word.rs1 = ⟨0#5⟩ := by
    apply Decidable.byContradiction
    intro source
    exact strict ⟨same, minor, target, number, source⟩
  have fields := word_eq_fields word
  rw [source, minor, target, same] at fields
  exact fields

theorem decode_eq_of_strict_system {word : Word} (same : word.opcode = 0b1110011#7)
    (strict : ¬word.LooseSystem) : Instruction.decode word = Standard.decode word := by
  rw [decode_system same]
  simp only [Instruction.decode, same, Instruction.decodeSystem]
  by_cases call : word = 0x00000073#32
  · subst word
    rfl
  by_cases pause : word = 0x00100073#32
  · subst word
    rfl
  rw [if_neg call, if_neg pause]
  by_cases shape : word.funct3 = 0#3 ∧ word.rd = ⟨0#5⟩
  · have fixed := eq_of_strict_system same strict shape.1 shape.2
    rw [if_pos shape]
    split
    · next zero =>
      rw [zero] at fixed
      exact absurd (fixed (.inl rfl)) call
    · next one =>
      rw [one] at fixed
      exact absurd (fixed (.inr rfl)) pause
    · rfl
  · rw [if_neg shape]

theorem decode_eq_of_sound_shift {word : Word} (same : word.opcode = 0b0010011#7)
    (logical : ¬word.LogicalShift) (arithmetic : ¬word.ArithmeticShift) {op : ShiftOp}
    (found : ShiftOp.ofFunct? word.funct3 word.funct7 = some op) :
    Instruction.decode word = Standard.decode word := by
  have shape : (word.funct3 = 0b001#3 ∨ word.funct3 = 0b101#3) ∧ word.funct7 = 0b0000000#7 := by
    rcases ShiftOp.ofFunct?_eq_some found with ⟨minor, top, -⟩ | ⟨minor, top, -⟩ | ⟨minor, top, -⟩
    · exact ⟨.inl minor, top⟩
    · exact ⟨.inr minor, top⟩
    · exact absurd ⟨same, minor, top⟩ arithmetic
  have zero : word.extractLsb' 20 5 = 0#5 := by
    apply Decidable.byContradiction
    intro nonzero
    exact logical ⟨same, shape.1, shape.2, nonzero⟩
  obtain ⟨listed, standard⟩ := decode_shift same found
  rw [listed, standard, shiftAmount_logical shape.2, (shiftAmount_eq_zero_iff word).mpr zero]

theorem decode_eq_of_not_misread {word : Word} (sound : ¬word.Misread) :
    Instruction.decode word = Standard.decode word := by
  simp only [Misread, not_or] at sound
  obtain ⟨jump, logical, arithmetic, fence, system⟩ := sound
  by_cases same : word.opcode = 0b1101111#7
  · have equal : word.getLsbD 19 = word.getLsbD 20 := by
      apply Decidable.byContradiction
      intro other
      exact jump ⟨same, other⟩
    rw [decode_jump same, ← (jumpOffset_eq_iff word).mpr equal]
    simp only [Instruction.decode, same]
  by_cases same : word.opcode = 0b0010011#7
  · cases found : ShiftOp.ofFunct? word.funct3 word.funct7 with
    | none => exact decode_eq_of_unshifted same found
    | some op => exact decode_eq_of_sound_shift same logical arithmetic found
  by_cases same : word.opcode = 0b0001111#7
  · have zero : word.funct3 = 0#3 := by
      apply Decidable.byContradiction
      intro nonzero
      exact fence ⟨same, nonzero⟩
    rw [decode_fence same, if_pos zero]
    simp only [Instruction.decode, same]
  by_cases same : word.opcode = 0b1110011#7
  · exact decode_eq_of_strict_system same system
  · apply decode_eq_of_plain <;> assumption

/-- The listed instruction is the one of the instruction set on exactly the words that are not
misread, and what a misread word is listed as is known. -/
theorem decode_divergence (word : Word) :
    (Instruction.decode word = Standard.decode word ↔ ¬word.Misread) ∧
      (word.SkewedJump → ∃ link offset listed,
        Standard.decode word = .jal link offset ∧ Instruction.decode word = .jal link listed ∧
        ∀ bit, listed.getLsbD bit =
          if bit = 11 then word.getLsbD 19 else offset.getLsbD bit) ∧
      (word.LogicalShift → ∃ op target source amount, op ≠ .srai ∧
        Standard.decode word = .shift op target source amount ∧
        Instruction.decode word = .shift op target source 0#32) ∧
      (word.ArithmeticShift → ∃ target source amount,
        Standard.decode word = .shift .srai target source amount ∧
        Instruction.decode word = .shift .srai target source 32#32) ∧
      (word.LooseFence →
        Standard.decode word = .unknown ∧ Instruction.decode word = .fence) ∧
      (word.LooseSystem → Standard.decode word = .unknown ∧
        Instruction.decode word = if word.funct12 = 0#12 then .ecall else .ebreak) := by
  refine ⟨⟨?_, decode_eq_of_not_misread⟩, ?_, ?_, ?_, ?_, ?_⟩
  · intro equal misread
    exact decode_ne_of_misread misread equal
  · intro skewed
    obtain ⟨listed, standard⟩ := decode_of_skewedJump skewed
    exact ⟨_, _, _, standard, listed, jumpOffset_bit word⟩
  · intro logical
    obtain ⟨op, other, listed, standard⟩ := decode_of_logicalShift logical
    exact ⟨op, _, _, _, other, standard, listed⟩
  · intro arithmetic
    obtain ⟨listed, standard⟩ := decode_of_arithmeticShift arithmetic
    exact ⟨_, _, _, standard, listed⟩
  · intro loose
    exact (decode_of_looseFence loose).symm
  · intro loose
    exact (decode_of_looseSystem loose).symm

example : Word.Misread 0x0010006F#32 ∧
    Standard.decode 0x0010006F#32 = .jal ⟨0#5⟩ 2048#32 ∧
    Instruction.decode 0x0010006F#32 = .jal ⟨0#5⟩ 0#32 := by
  decide

end RiscvListing
