import RiscvListing.Proofs.Instruction.Encode
import RiscvListing.Proofs.Instruction.Divergence

namespace RiscvListing

theorem signedField_extractLsb' {width : Nat} {value : Immediate} (inside : width + 1 ≤ 32)
    (low : -2 ^ width ≤ value.toInt) (high : value.toInt < 2 ^ width) :
    signedField (value.extractLsb' 0 (width + 1)) = value := by
  apply BitVec.eq_of_toInt_eq
  rw [signedField, BitVec.toInt_signExtend_of_le inside, ← BitVec.setWidth_eq_extractLsb' inside,
    BitVec.toInt_setWidth]
  have word : (value.toNat : Int).bmod (2 ^ (width + 1)) = value.toInt.bmod (2 ^ (width + 1)) := by
    rw [BitVec.toInt_eq_toNat_bmod, Int.bmod_bmod_of_dvd]
    exact Nat.pow_dvd_pow 2 inside
  rw [word]
  apply Int.bmod_eq_of_le
  · push_cast [Int.pow_succ]
    omega
  · push_cast [Int.pow_succ]
    omega

namespace Instruction

open Word

/-- How a word is read, one rule for each kind of instruction. -/
inductive Reads (word : Word) : Instruction → Prop where
  | lui (opcode : word.opcode = 0b0110111#7) : Reads word (lui word.rd word.upperImmediate)
  | auipc (opcode : word.opcode = 0b0010111#7) : Reads word (auipc word.rd word.upperImmediate)
  | jal (opcode : word.opcode = 0b1101111#7) : Reads word (jal word.rd word.jumpOffset)
  | jalr (opcode : word.opcode = 0b1100111#7) (minor : word.funct3 = 0b000#3) :
    Reads word (jalr word.rd word.rs1 word.shortImmediate)
  | branch (op : BranchOp) (opcode : word.opcode = 0b1100011#7) (minor : word.funct3 = op.funct3) :
    Reads word (branch op word.rs1 word.rs2 word.branchOffset)
  | load (op : LoadOp) (opcode : word.opcode = 0b0000011#7) (minor : word.funct3 = op.funct3) :
    Reads word (load op word.rd word.rs1 word.shortImmediate)
  | store (op : StoreOp) (opcode : word.opcode = 0b0100011#7) (minor : word.funct3 = op.funct3) :
    Reads word (store op word.rs1 word.rs2 word.storeOffset)
  | immediate (op : ImmediateOp) (opcode : word.opcode = 0b0010011#7)
    (minor : word.funct3 = op.funct3) :
    Reads word (immediate op word.rd word.rs1 word.shortImmediate)
  | shift (op : ShiftOp) (opcode : word.opcode = 0b0010011#7) (minor : word.funct3 = op.funct3)
    (top : word.funct7 = op.funct7) : Reads word (shift op word.rd word.rs1 word.shiftAmount)
  | register (op : RegisterOp) (opcode : word.opcode = 0b0110011#7)
    (minor : word.funct3 = op.funct3) (top : word.funct7 = op.funct7) :
    Reads word (register op word.rd word.rs1 word.rs2)
  | fence (opcode : word.opcode = 0b0001111#7) : Reads word fence
  | ecall (opcode : word.opcode = 0b1110011#7) (minor : word.funct3 = 0#3)
    (target : word.rd = ⟨0#5⟩) (number : word.funct12 = 0#12) : Reads word ecall
  | ebreak (opcode : word.opcode = 0b1110011#7) (minor : word.funct3 = 0#3)
    (target : word.rd = ⟨0#5⟩) (number : word.funct12 = 1#12) : Reads word ebreak

theorem ofFunct3?_funct3_shift (op : ShiftOp) : ImmediateOp.ofFunct3? op.funct3 = none := by
  cases op <;> rfl

theorem decode_of_reads {word : Word} {instruction : Instruction} (read : Reads word instruction) :
    decode word = instruction := by
  cases read with
  | lui opcode | auipc opcode | jal opcode | fence opcode => simp only [decode, opcode]
  | jalr opcode minor => simp only [decode, opcode, minor, if_true]
  | branch op opcode minor =>
    simp only [decode, opcode, (BranchOp.ofFunct3?_eq_some_iff _ _).mpr minor]
  | load op opcode minor =>
    simp only [decode, opcode, (LoadOp.ofFunct3?_eq_some_iff _ _).mpr minor]
  | store op opcode minor =>
    simp only [decode, opcode, (StoreOp.ofFunct3?_eq_some_iff _ _).mpr minor]
  | immediate op opcode minor =>
    simp only [decode, opcode, decodeImmediate, (ImmediateOp.ofFunct3?_eq_some_iff _ _).mpr minor]
  | shift op opcode minor top =>
    have found := (ShiftOp.ofFunct?_eq_some_iff _ _ _).mpr ⟨minor, top⟩
    have other := ofFunct3?_funct3_shift op
    rw [← minor] at other
    simp only [decode, opcode, decodeImmediate, other, found]
  | register op opcode minor top =>
    simp only [decode, opcode, (RegisterOp.ofFunct?_eq_some_iff _ _ _).mpr ⟨minor, top⟩]
  | ecall opcode minor target number =>
    simp only [decode, opcode, decodeSystem, minor, target, number, and_self, if_true]
  | ebreak opcode minor target number =>
    simp only [decode, opcode, decodeSystem, minor, target, number, and_self, if_true]

theorem reads_decodeImmediate {word : Word} (opcode : word.opcode = 0b0010011#7)
    (known : decodeImmediate word ≠ unknown) : Reads word (decodeImmediate word) := by
  unfold decodeImmediate at known ⊢
  split at known
  next op found =>
    exact .immediate op opcode ((ImmediateOp.ofFunct3?_eq_some_iff _ _).mp found)
  next none =>
    split at known
    next op found =>
      obtain ⟨minor, top⟩ := (ShiftOp.ofFunct?_eq_some_iff _ _ _).mp found
      exact .shift op opcode minor top
    next => contradiction

theorem reads_decodeSystem {word : Word} (opcode : word.opcode = 0b1110011#7)
    (known : decodeSystem word ≠ unknown) : Reads word (decodeSystem word) := by
  unfold decodeSystem at known ⊢
  split at known
  next shape =>
    rw [if_pos shape]
    split at known
    next number => exact .ecall opcode shape.1 shape.2 number
    next number => exact .ebreak opcode shape.1 shape.2 number
    next => contradiction
  next => contradiction

theorem reads_decode {word : Word} (known : decode word ≠ unknown) :
    Reads word (decode word) := by
  unfold decode at known ⊢
  split at known
  next opcode => exact .lui opcode
  next opcode => exact .auipc opcode
  next opcode => exact .jal opcode
  next opcode =>
    split at known
    next minor =>
      rw [if_pos minor]
      exact .jalr opcode minor
    next => contradiction
  next opcode =>
    split at known
    next op found => exact .branch op opcode ((BranchOp.ofFunct3?_eq_some_iff _ _).mp found)
    next => contradiction
  next opcode =>
    split at known
    next op found => exact .load op opcode ((LoadOp.ofFunct3?_eq_some_iff _ _).mp found)
    next => contradiction
  next opcode =>
    split at known
    next op found => exact .store op opcode ((StoreOp.ofFunct3?_eq_some_iff _ _).mp found)
    next => contradiction
  next opcode => exact reads_decodeImmediate opcode known
  next opcode =>
    split at known
    next op found =>
      obtain ⟨minor, top⟩ := (RegisterOp.ofFunct?_eq_some_iff _ _ _).mp found
      exact .register op opcode minor top
    next => contradiction
  next opcode => exact .fence opcode
  next opcode => exact reads_decodeSystem opcode known
  next => contradiction

theorem two_dvd_toInt_iff (value : Immediate) : 2 ∣ value.toInt ↔ value.getLsbD 0 = false := by
  have bound := value.isLt
  rw [BitVec.getLsbD, Nat.testBit_zero, decide_eq_false_iff_not, BitVec.toInt_eq_toNat_cond]
  split <;> omega

theorem signedField_bounds {width : Nat} (inside : width + 1 ≤ 32) (bits : BitVec (width + 1)) :
    -2 ^ width ≤ (signedField bits).toInt ∧ (signedField bits).toInt < 2 ^ width := by
  rw [signedField, BitVec.toInt_signExtend_of_le inside]
  exact ⟨BitVec.le_toInt bits, BitVec.toInt_lt⟩

theorem upperImmediate_bounds (word : Word) :
    0 ≤ word.upperImmediate.toInt ∧ word.upperImmediate.toInt ≤ 2 ^ 20 - 1 := by
  have bound := (word.extractLsb' 12 20).isLt
  have value : word.upperImmediate.toNat = (word.extractLsb' 12 20).toNat := by
    rw [upperImmediate, BitVec.toNat_setWidth, Nat.mod_eq_of_lt (by omega)]
  rw [BitVec.toInt_eq_toNat_of_lt (by omega), value]
  omega

theorem shortImmediate_bounds (word : Word) :
    -2048 ≤ word.shortImmediate.toInt ∧ word.shortImmediate.toInt ≤ 2047 := by
  have range : -2 ^ 11 ≤ word.shortImmediate.toInt ∧ word.shortImmediate.toInt < 2 ^ 11 :=
    signedField_bounds (by decide) word.funct12
  omega

theorem getLsbD_zero_branchOffset (word : Word) : word.branchOffset.getLsbD 0 = false := by
  simp only [branchOffset, signedField, BitVec.getLsbD_signExtend, BitVec.getLsbD_append]
  grind

theorem getLsbD_jumpOffset_twice (word : Word) :
    word.jumpOffset.getLsbD 0 = false ∧
      word.jumpOffset.getLsbD 11 = word.jumpOffset.getLsbD 19 := by
  simp only [jumpOffset, signedField, BitVec.getLsbD_signExtend, BitVec.getLsbD_append,
    BitVec.getLsbD_extractLsb']
  grind

theorem shiftAmount_of_funct7 {word : Word} {op : ShiftOp} (top : word.funct7 = op.funct7) :
    word.shiftAmount = amountOf op := by
  rw [Standard.listed_shiftAmount, top]
  cases op <;> decide

theorem wellFormed_of_reads {word : Word} {instruction : Instruction}
    (read : Reads word instruction) : instruction.WellFormed := by
  cases read with
  | lui | auipc => exact upperImmediate_bounds word
  | jal =>
    have range : -2 ^ 20 ≤ word.jumpOffset.toInt ∧ word.jumpOffset.toInt < 2 ^ 20 :=
      signedField_bounds (by decide) _
    obtain ⟨even, twice⟩ := getLsbD_jumpOffset_twice word
    exact ⟨(two_dvd_toInt_iff _).mpr even, range.1, range.2, twice⟩
  | branch =>
    have range : -2 ^ 12 ≤ word.branchOffset.toInt ∧ word.branchOffset.toInt < 2 ^ 12 :=
      signedField_bounds (by decide) _
    have even := (two_dvd_toInt_iff _).mpr (getLsbD_zero_branchOffset word)
    exact ⟨even, range.1, by omega⟩
  | jalr | load | immediate => exact shortImmediate_bounds word
  | store =>
    have range : -2 ^ 11 ≤ word.storeOffset.toInt ∧ word.storeOffset.toInt < 2 ^ 11 :=
      signedField_bounds (by decide) _
    exact ⟨range.1, by omega⟩
  | shift op opcode minor top => exact shiftAmount_of_funct7 top
  | register | fence | ecall | ebreak => trivial

theorem setWidth_extractLsb'_of_bounds {value : Immediate} (low : 0 ≤ value.toInt)
    (high : value.toInt ≤ 2 ^ 20 - 1) : (value.extractLsb' 0 20).setWidth 32 = value := by
  have bound := value.isLt
  have small : value.toNat < 2 ^ 20 := by
    rw [BitVec.toInt_eq_toNat_cond] at low high
    split at high <;> omega
  apply BitVec.eq_of_toNat_eq
  rw [BitVec.toNat_setWidth, BitVec.extractLsb'_toNat]
  simp only [Nat.shiftRight_zero]
  omega

theorem shortImmediate_ofShort_of_bounds {value : Immediate}
    (bounds : -2048 ≤ value.toInt ∧ value.toInt ≤ 2047) (rs1 : Register) (minor : BitVec 3)
    (rd : Register) (code : BitVec 7) :
    shortImmediate (ofShort value rs1 minor rd code) = value := by
  obtain ⟨low, high⟩ := bounds
  rw [shortImmediate_ofShort, signedField_extractLsb' (by decide) low (by omega)]

theorem decode_encode {instruction : Instruction} (wellFormed : instruction.WellFormed) :
    decode instruction.encode = instruction := by
  cases instruction with
  | lui rd value =>
    have read : Reads (lui rd value).encode _ := .lui (opcode_ofFields ..)
    rw [decode_of_reads read, encode, upperImmediate_ofUpper,
      setWidth_extractLsb'_of_bounds wellFormed.1 wellFormed.2, ofUpper, rd_ofFields]
  | auipc rd value =>
    have read : Reads (auipc rd value).encode _ := .auipc (opcode_ofFields ..)
    rw [decode_of_reads read, encode, upperImmediate_ofUpper,
      setWidth_extractLsb'_of_bounds wellFormed.1 wellFormed.2, ofUpper, rd_ofFields]
  | jal rd offset =>
    obtain ⟨even, low, high, twice⟩ := wellFormed
    have read : Reads (jal rd offset).encode _ := .jal (opcode_ofFields ..)
    rw [decode_of_reads read, encode,
      jumpOffset_ofJump ((two_dvd_toInt_iff offset).mp even) twice,
      signedField_extractLsb' (by decide) low high, ofJump, rd_ofFields]
  | jalr rd rs1 offset =>
    have read : Reads (jalr rd rs1 offset).encode _ :=
      .jalr (opcode_ofFields ..) (funct3_ofFields ..)
    rw [decode_of_reads read, encode, shortImmediate_ofShort_of_bounds wellFormed, ofShort,
      rd_ofFields, rs1_ofFields]
  | branch op rs1 rs2 offset =>
    obtain ⟨even, low, high⟩ := wellFormed
    have read : Reads (branch op rs1 rs2 offset).encode _ :=
      .branch op (opcode_ofFields ..) (funct3_ofFields ..)
    rw [decode_of_reads read, encode,
      branchOffset_ofBranch ((two_dvd_toInt_iff offset).mp even),
      signedField_extractLsb' (by decide) low (by omega), ofBranch, rs1_ofFields, rs2_ofFields]
  | load op rd rs1 offset =>
    have read : Reads (load op rd rs1 offset).encode _ :=
      .load op (opcode_ofFields ..) (funct3_ofFields ..)
    rw [decode_of_reads read, encode, shortImmediate_ofShort_of_bounds wellFormed, ofShort,
      rd_ofFields, rs1_ofFields]
  | store op rs1 rs2 offset =>
    obtain ⟨low, high⟩ := wellFormed
    have read : Reads (store op rs1 rs2 offset).encode _ :=
      .store op (opcode_ofFields ..) (funct3_ofFields ..)
    rw [decode_of_reads read, encode, storeOffset_ofStore,
      signedField_extractLsb' (by decide) low (by omega), ofStore, rs1_ofFields, rs2_ofFields]
  | immediate op rd rs1 value =>
    have read : Reads (immediate op rd rs1 value).encode _ :=
      .immediate op (opcode_ofFields ..) (funct3_ofFields ..)
    rw [decode_of_reads read, encode, shortImmediate_ofShort_of_bounds wellFormed, ofShort,
      rd_ofFields, rs1_ofFields]
  | shift op rd rs1 amount =>
    have top : (shift op rd rs1 amount).encode.funct7 = op.funct7 := funct7_ofFields ..
    have read : Reads (shift op rd rs1 amount).encode _ :=
      .shift op (opcode_ofFields ..) (funct3_ofFields ..) top
    rw [decode_of_reads read, shiftAmount_of_funct7 top, ← wellFormed, encode, rd_ofFields,
      rs1_ofFields]
  | register op rd rs1 rs2 =>
    have read : Reads (register op rd rs1 rs2).encode _ :=
      .register op (opcode_ofFields ..) (funct3_ofFields ..) (funct7_ofFields ..)
    rw [decode_of_reads read, encode, rd_ofFields, rs1_ofFields, rs2_ofFields]
  | fence | ecall | ebreak | unknown => rfl

theorem getLsbD_system {word : Word} {number : BitVec 12} (opcode : word.opcode = 0b1110011#7)
    (minor : word.funct3 = 0#3) (target : word.rd = ⟨0#5⟩) (same : word.funct12 = number)
    {bit : Nat} (kept : ¬(15 ≤ bit ∧ bit ≤ 19)) :
    (number ++ 0#5 ++ 0#3 ++ 0#5 ++ 0b1110011#7).getLsbD bit = word.getLsbD bit := by
  have fields := Standard.word_eq_fields word
  rw [same, minor, target, opcode] at fields
  rw [fields]
  simp only [BitVec.getLsbD_append]
  grind

theorem getLsbD_fence {word : Word} (opcode : word.opcode = 0b0001111#7) {bit : Nat}
    (kept : ¬(7 ≤ bit ∧ bit ≤ 31)) : fence.encode.getLsbD bit = word.getLsbD bit := by
  have low : fence.encode.getLsbD bit = (0#25 ++ word.opcode).getLsbD bit := by
    rw [opcode]
    rfl
  rw [low, Word.opcode, BitVec.getLsbD_append, BitVec.getLsbD_extractLsb']
  grind

theorem getLsbD_encode_of_reads {word : Word} {instruction : Instruction}
    (read : Reads word instruction) {bit : Nat} (kept : ¬instruction.kind.Ignores bit) :
    instruction.encode.getLsbD bit = word.getLsbD bit := by
  cases read with
  | lui opcode => rw [encode, ← opcode, ofUpper_upperImmediate]
  | auipc opcode => rw [encode, ← opcode, ofUpper_upperImmediate]
  | jal opcode => rw [encode, ← opcode, getLsbD_ofJump_jumpOffset word kept]
  | jalr opcode minor => rw [encode, ← opcode, ← minor, ofShort_shortImmediate]
  | branch op opcode minor => rw [encode, ← opcode, ← minor, ofBranch_branchOffset]
  | load op opcode minor => rw [encode, ← opcode, ← minor, ofShort_shortImmediate]
  | store op opcode minor => rw [encode, ← opcode, ← minor, ofStore_storeOffset]
  | immediate op opcode minor => rw [encode, ← opcode, ← minor, ofShort_shortImmediate]
  | shift op opcode minor top =>
    rw [encode, ← opcode, ← minor, ← top, getLsbD_ofFields_of_not_rs2 word kept]
  | register op opcode minor top => rw [encode, ← opcode, ← minor, ← top, ofFields_fields]
  | fence opcode => exact getLsbD_fence opcode kept
  | ecall opcode minor target number => exact getLsbD_system opcode minor target number kept
  | ebreak opcode minor target number => exact getLsbD_system opcode minor target number kept

theorem getLsbD_encode_of_ignores {instruction : Instruction} {bit : Nat}
    (ignored : instruction.kind.Ignores bit) : instruction.encode.getLsbD bit = false := by
  cases instruction with
  | jal rd offset =>
    change bit = 20 at ignored
    simp only [encode, ofJump, getLsbD_ofFields, BitVec.getLsbD_append]
    grind
  | shift op rd rs1 amount =>
    change 20 ≤ bit ∧ bit ≤ 24 at ignored
    rw [encode, getLsbD_ofFields]
    grind
  | fence =>
    change 7 ≤ bit ∧ bit ≤ 31 at ignored
    change (0#25 ++ 0b0001111#7).getLsbD bit = false
    rw [BitVec.getLsbD_append]
    grind
  | ecall =>
    change 15 ≤ bit ∧ bit ≤ 19 at ignored
    change (0#12 ++ 0#5 ++ 0b000000001110011#15).getLsbD bit = false
    simp only [BitVec.getLsbD_append]
    grind
  | ebreak =>
    change 15 ≤ bit ∧ bit ≤ 19 at ignored
    change (1#12 ++ 0#5 ++ 0b000000001110011#15).getLsbD bit = false
    simp only [BitVec.getLsbD_append]
    grind
  | lui | auipc | jalr | branch | load | store | immediate | register | unknown =>
    exact absurd ignored id

theorem eq_unknown_of_kind {instruction : Instruction} (same : instruction.kind = .unknown) :
    instruction = unknown := by
  cases instruction <;> cases same
  rfl

theorem encode_decode_eq_iff {first second : Word} (known : decode first ≠ unknown)
    (other : decode second ≠ unknown) (same : (decode second).kind = (decode first).kind) :
    (decode second).encode = (decode first).encode ↔
      ∀ bit, ¬(decode first).kind.Ignores bit → second.getLsbD bit = first.getLsbD bit := by
  constructor
  · intro equal bit kept
    rw [← getLsbD_encode_of_reads (reads_decode known) kept, ← equal,
      getLsbD_encode_of_reads (reads_decode other) (same ▸ kept)]
  · intro agree
    apply BitVec.eq_of_getLsbD_eq
    intro bit inside
    by_cases ignored : (decode first).kind.Ignores bit
    · rw [getLsbD_encode_of_ignores ignored, getLsbD_encode_of_ignores (same ▸ ignored)]
    · rw [getLsbD_encode_of_reads (reads_decode known) ignored,
        getLsbD_encode_of_reads (reads_decode other) (same ▸ ignored), agree bit ignored]

theorem wellFormed_decode (word : Word) : (decode word).WellFormed := by
  by_cases known : decode word = unknown
  · rw [known]
    trivial
  · exact wellFormed_of_reads (reads_decode known)

theorem decode_eq_decode_iff {first : Word} (known : decode first ≠ unknown) (second : Word) :
    decode second = decode first ↔
      (decode second).kind = (decode first).kind ∧
        ∀ bit, ¬(decode first).kind.Ignores bit → second.getLsbD bit = first.getLsbD bit := by
  constructor
  · intro equal
    have other : decode second ≠ unknown := equal ▸ known
    have same := congrArg kind equal
    exact ⟨same, (encode_decode_eq_iff known other same).mp (congrArg encode equal)⟩
  · intro alike
    obtain ⟨same, agree⟩ := alike
    have other : decode second ≠ unknown := by
      intro absent
      rw [absent] at same
      exact known (eq_unknown_of_kind same.symm)
    have words := (encode_decode_eq_iff known other same).mpr agree
    calc
      decode second = decode (decode second).encode :=
        (decode_encode (wellFormed_decode second)).symm
      _ = decode (decode first).encode := congrArg decode words
      _ = decode first := decode_encode (wellFormed_decode first)

/-- Decoding inverts encoding, its results fit into a word, and of a word that it knows exactly the
ignored bits are lost. -/
theorem encode_decode_roundTrip :
    (∀ instruction : Instruction, instruction.WellFormed → instruction ≠ unknown →
      decode instruction.encode = instruction ∧
        ∀ bit, instruction.kind.Ignores bit → instruction.encode.getLsbD bit = false) ∧
    (∀ word, decode word = unknown ∨ (decode word).WellFormed) ∧
    (∀ word, decode word ≠ unknown → ∀ bit, ¬(decode word).kind.Ignores bit →
      (decode word).encode.getLsbD bit = word.getLsbD bit) ∧
    (∀ first, decode first ≠ unknown → ∀ second,
      decode second = decode first ↔
        (decode second).kind = (decode first).kind ∧
          ∀ bit, ¬(decode first).kind.Ignores bit → second.getLsbD bit = first.getLsbD bit) := by
  refine ⟨?_, ?_, ?_, ?_⟩
  · intro instruction wellFormed known
    exact ⟨decode_encode wellFormed, fun bit => getLsbD_encode_of_ignores⟩
  · intro word
    exact .inr (wellFormed_decode word)
  · intro word known bit kept
    exact getLsbD_encode_of_reads (reads_decode known) kept
  · intro first known second
    exact decode_eq_decode_iff known second

example : encode (jal ⟨1#5⟩ (-2048#32)) = 0x800ff0ef#32 ∧
    decode 0x800ff0ef#32 = jal ⟨1#5⟩ (-2048#32) ∧
    decode 0x801ff0ef#32 = decode 0x800ff0ef#32 := by
  decide

end Instruction

end RiscvListing
