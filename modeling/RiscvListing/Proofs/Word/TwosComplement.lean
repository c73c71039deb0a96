import Mathlib.Data.Int.ModEq
import RiscvListing.Proofs.Guarded.Instruction

namespace RiscvListing.Word

/-- The number that the low `width` bits of a word stand for when the highest of them counts
negative. -/
structure StandsFor (value : Word) (width : Nat) (number : Int) : Prop where
  least : -2 ^ (width - 1) ≤ number
  most : number < 2 ^ (width - 1)
  congruent : number ≡ value.toNat [ZMOD 2 ^ width]

theorem StandsFor.unique {value : Word} {width : Nat} {number other : Int} (positive : 1 ≤ width)
    (stands : StandsFor value width number) (also : StandsFor value width other) :
    number = other := by
  obtain ⟨less, rfl⟩ : ∃ less, width = less + 1 := ⟨width - 1, by omega⟩
  obtain ⟨least, most, congruent⟩ := stands
  obtain ⟨leastOther, mostOther, congruentOther⟩ := also
  rw [Nat.add_sub_cancel] at least most leastOther mostOther
  have multiple : (2 : Int) ^ (less + 1) ∣ other - number :=
    (congruent.trans congruentOther.symm).dvd
  have close : |other - number| < 2 ^ (less + 1) := by
    rw [pow_succ, abs_lt]
    omega
  have same := Int.eq_zero_of_abs_lt_dvd multiple close
  omega

section Field

variable {width : Nat} (few : width ≤ 32) (value : Word)

include few

theorem toInt_signed : (value.signed width).toInt = (value.setWidth width).toInt :=
  BitVec.toInt_signExtend_of_le few

theorem standsFor_signed : StandsFor value width (value.signed width).toInt where
  least := by
    rw [toInt_signed few]
    exact BitVec.le_toInt _
  most := by
    rw [toInt_signed few]
    exact BitVec.toInt_lt
  congruent := by
    have rest : (value.toNat : Int).bmod (2 ^ width) % (2 ^ width : Nat) =
        value.toNat % (2 ^ width : Nat) := Int.bmod_emod
    rw [toInt_signed few, BitVec.toInt_setWidth, Int.ModEq]
    exact_mod_cast rest

theorem setWidth_signed : (value.signed width).setWidth width = value.setWidth width := by
  apply BitVec.eq_of_getLsbD_eq
  intro index inside
  have within : index < 32 := Nat.lt_of_lt_of_le inside few
  rw [signed, signedField, BitVec.getLsbD_setWidth, BitVec.getLsbD_signExtend, if_pos inside,
    decide_eq_true inside, decide_eq_true within, Bool.true_and, Bool.true_and]

theorem signed_eq_signed_iff (other : Word) :
    other.signed width = value.signed width ↔
      ∀ index, index < width → other.getLsbD index = value.getLsbD index := by
  have field : other.signed width = value.signed width ↔
      other.setWidth width = value.setWidth width := by
    constructor
    · intro same
      rw [← setWidth_signed few other, same, setWidth_signed few]
    · intro same
      rw [signed, same, signed]
  rw [field]
  constructor
  · intro same index inside
    have bit := congrArg (BitVec.getLsbD · index) same
    simpa only [BitVec.getLsbD_setWidth, inside, decide_true, Bool.true_and] using bit
  · intro bits
    apply BitVec.eq_of_getLsbD_eq
    intro index inside
    rw [BitVec.getLsbD_setWidth, BitVec.getLsbD_setWidth, bits index inside]

end Field

def wideModulus (width : Nat) : BitVec 64 :=
  1#64 <<< width

def wideLow (value : Word) (width : Nat) : BitVec 64 :=
  value.setWidth 64 &&& (wideModulus width - 1#64)

def wideSigned (value : Word) (width : Nat) : BitVec 64 :=
  if wideModulus (width - 1) ≤ value.wideLow width then
    value.wideLow width - wideModulus width
  else value.wideLow width

/-- A machine with words of 64 bits comes to the number of a field as one with numbers of any size
does: no bit is shifted out, no difference wraps around, a word means the same number with a sign
as without, and so does the last one when it is cut to 32 bits. -/
structure Exact (value : Word) (width : Nat) : Prop where
  modulus : (wideModulus width).toNat = 2 ^ width
  half : (wideModulus (width - 1)).toNat = 2 ^ (width - 1)
  mask : (wideModulus width).usubOverflow 1#64 = false
  low : (value.wideLow width).toNat = value.toNat % 2 ^ width
  modulusSign : (wideModulus width).toInt = (wideModulus width).toNat
  lowSign : (value.wideLow width).toInt = (value.wideLow width).toNat
  difference : (value.wideLow width).ssubOverflow (wideModulus width) = false
  cut : ((value.wideSigned width).setWidth 32).toInt = (value.wideSigned width).toInt
  result : (value.wideSigned width).setWidth 32 = value.signed width

section Wide

variable {width : Nat} (few : width ≤ 32) (value : Word)

include few

theorem toNat_wideModulus : (wideModulus width).toNat = 2 ^ width := by
  rw [wideModulus, ← BitVec.twoPow_eq, BitVec.toNat_twoPow_of_lt (by omega)]

theorem usubOverflow_wideModulus : (wideModulus width).usubOverflow 1#64 = false := by
  rw [BitVec.usubOverflow, toNat_wideModulus few]
  exact decide_eq_false (Nat.not_lt.mpr Nat.one_le_two_pow)

theorem toNat_wideLow : (value.wideLow width).toNat = value.toNat % 2 ^ width := by
  have inside := value.isLt
  have mask : (wideModulus width - 1#64).toNat = 2 ^ width - 1 := by
    rw [BitVec.toNat_sub_of_not_usubOverflow (Bool.eq_false_iff.mp (usubOverflow_wideModulus few)),
      toNat_wideModulus few]
    rfl
  rw [wideLow, BitVec.toNat_and, BitVec.toNat_setWidth, Nat.mod_eq_of_lt (by omega), mask,
    Nat.and_two_pow_sub_one_eq_mod]

theorem toInt_wideModulus : (wideModulus width).toInt = (wideModulus width).toNat := by
  have bound : 2 ^ width ≤ 2 ^ 32 := Nat.pow_le_pow_right (by decide) few
  apply BitVec.toInt_eq_toNat_of_lt
  rw [toNat_wideModulus few]
  omega

theorem toInt_wideLow : (value.wideLow width).toInt = (value.wideLow width).toNat := by
  have inside := value.isLt
  have bound : value.toNat % 2 ^ width ≤ value.toNat := Nat.mod_le _ _
  apply BitVec.toInt_eq_toNat_of_lt
  rw [toNat_wideLow few]
  omega

theorem ssubOverflow_wideLow :
    (value.wideLow width).ssubOverflow (wideModulus width) = false := by
  have bound : 2 ^ width ≤ 2 ^ 32 := Nat.pow_le_pow_right (by decide) few
  have small : value.toNat % 2 ^ width < 2 ^ width := Nat.mod_lt _ (Nat.two_pow_pos _)
  rw [BitVec.ssubOverflow, toInt_wideLow few, toInt_wideModulus few, toNat_wideLow few,
    toNat_wideModulus few, Bool.or_eq_false_iff, decide_eq_false_iff_not, decide_eq_false_iff_not]
  omega

theorem toInt_wideSigned (positive : 1 ≤ width) :
    (value.wideSigned width).toInt = (value.signed width).toInt := by
  have double : 2 ^ (width - 1) * 2 = 2 ^ width := Nat.two_pow_pred_mul_two positive
  have low : (value.wideLow width).toInt = (value.toNat % 2 ^ width : Nat) := by
    rw [toInt_wideLow few, toNat_wideLow few]
  have compare : wideModulus (width - 1) ≤ value.wideLow width ↔
      2 ^ (width - 1) ≤ value.toNat % 2 ^ width := by
    rw [BitVec.le_def, toNat_wideModulus (by omega), toNat_wideLow few]
  have difference := Bool.eq_false_iff.mp (ssubOverflow_wideLow few value)
  rw [toInt_signed few, BitVec.toInt_eq_toNat_cond (value.setWidth width),
    BitVec.toNat_setWidth, wideSigned]
  by_cases negative : 2 ^ (width - 1) ≤ value.toNat % 2 ^ width
  · rw [if_pos (compare.mpr negative), if_neg (by omega),
      BitVec.toInt_sub_of_not_ssubOverflow difference, low, toInt_wideModulus few,
      toNat_wideModulus few]
  · rw [if_neg (compare.not.mpr negative), if_pos (by omega), low]

theorem setWidth_wideSigned (positive : 1 ≤ width) :
    (value.wideSigned width).setWidth 32 = value.signed width := by
  rw [← BitVec.signExtend_eq_setWidth_of_le _ (by decide), BitVec.signExtend,
    toInt_wideSigned few value positive, BitVec.ofInt_toInt]

theorem exact_of_width (positive : 1 ≤ width) : Exact value width where
  modulus := toNat_wideModulus few
  half := toNat_wideModulus (by omega)
  mask := usubOverflow_wideModulus few
  low := toNat_wideLow few value
  modulusSign := toInt_wideModulus few
  lowSign := toInt_wideLow few value
  difference := ssubOverflow_wideLow few value
  cut := by rw [setWidth_wideSigned few value positive, toInt_wideSigned few value positive]
  result := setWidth_wideSigned few value positive

end Wide

/-- The low bits of a word stand for exactly one number, which they alone decide and which has
these bits itself. The signed fields of an instruction are read so, and a machine with words of
64 bits comes to the number without leaving their range. -/
theorem signed_twosComplement {width : Nat} (positive : 1 ≤ width) (few : width ≤ 32)
    (value : Word) :
    (∀ number : Int, StandsFor value width number ↔ number = (value.signed width).toInt) ∧
    (∀ other : Word, other.signed width = value.signed width ↔
      ∀ index, index < width → other.getLsbD index = value.getLsbD index) ∧
    (value.signed width).setWidth width = value.setWidth width ∧
    (∀ bits : BitVec width, signed (bits.setWidth 32) width = signedField bits) ∧
    Guarded.Yields (Guarded.signed value width) (.ok (value.signed width)) ∧
    Exact value width := by
  have stands := standsFor_signed few value
  refine ⟨?_, signed_eq_signed_iff few value, setWidth_signed few value,
    Guarded.signed_setWidth few, Guarded.yields_signed positive few value,
    exact_of_width few value positive⟩
  intro number
  constructor
  · intro also
    exact also.unique positive stands
  · rintro rfl
    exact stands

theorem wholeWord_twosComplement :
    (∀ number, StandsFor 0x80000000#32 32 number ↔ number = -2147483648) ∧
    Exact 0x80000000#32 32 ∧
    (∀ number, StandsFor 0xabcde7ff#32 12 number ↔ number = 2047) ∧
    signed 0xabcde7ff#32 12 = signed 0x7ff#32 12 := by
  obtain ⟨whole, -, -, -, -, fits⟩ :=
    signed_twosComplement (by decide : 1 ≤ 32) (by decide) 0x80000000#32
  obtain ⟨part, bits, -⟩ :=
    signed_twosComplement (by decide : 1 ≤ 12) (by decide) 0xabcde7ff#32
  exact ⟨whole, fits, part, ((bits 0x7ff#32).mpr (by decide)).symm⟩

end RiscvListing.Word
