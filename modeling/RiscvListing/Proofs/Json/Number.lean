import Mathlib.Algebra.Group.Nat.Defs
import RiscvListing.Json.Number
import RiscvListing.Proofs.Json.Quoted

namespace RiscvListing.Json

open Grammar

def EndsDigits (rest : List Char) : Prop :=
  ∀ c, rest.head? = some c → c.isDigit = false

/-- No number goes on with a text. -/
def EndsNumber (rest : List Char) : Prop :=
  ∀ c, rest.head? = some c → c.isDigit = false ∧ c ≠ '.' ∧ c ≠ 'e' ∧ c ≠ 'E'

theorem EndsNumber.endsDigits {rest : List Char} (ends : EndsNumber rest) : EndsDigits rest :=
  fun c first => (ends c first).1

theorem endsNumber_cons {c : Char} (plain : c.isDigit = false ∧ c ≠ '.' ∧ c ≠ 'e' ∧ c ≠ 'E')
    (rest : List Char) : EndsNumber (c :: rest) := by
  intro first same
  cases same
  exact plain

theorem endsNumber_blank {blank rest : List Char} (shape : Blank blank) (ends : EndsNumber rest) :
    EndsNumber (blank ++ rest) := by
  cases blank with
  | nil => exact ends
  | cons c blank =>
    apply endsNumber_cons
    rcases shape c List.mem_cons_self with rfl | rfl | rfl | rfl
    all_goals decide

theorem Grammar.Number.first {text : List Char} (number : Number text) :
    ∃ c tail, text = c :: tail ∧ (c = '-' ∨ c.isDigit = true) := by
  obtain ⟨signed, digits, decimals, power⟩ := number
  next sign whole fraction exponent =>
  rcases signed with rfl | rfl
  · obtain ⟨⟨some, all⟩, -⟩ := digits
    cases whole with
    | nil => exact absurd rfl some
    | cons c whole => exact ⟨c, _, rfl, .inr (all c List.mem_cons_self)⟩
  · exact ⟨'-', _, rfl, .inl rfl⟩

namespace Numeral

theorem readDigits_of_digits {digits rest : List Char} (shape : Digits digits)
    (ends : EndsDigits rest) : readDigits (digits ++ rest) = .ok (digits, rest) := by
  obtain ⟨some, all⟩ := shape
  cases digits with
  | nil => exact absurd rfl some
  | cons c digits =>
    have first : c.isDigit = true := all c List.mem_cons_self
    have more : ∀ digit ∈ digits, digit.isDigit = true :=
      fun digit member => all digit (List.mem_cons_of_mem _ member)
    have none : rest.takeWhile Char.isDigit = [] ∧ rest.dropWhile Char.isDigit = rest := by
      cases rest with
      | nil => exact ⟨rfl, rfl⟩
      | cons next rest =>
        have other := ends next rfl
        exact ⟨List.takeWhile_cons_of_neg (by simp [other]),
          List.dropWhile_cons_of_neg (by simp [other])⟩
    rw [List.cons_append, readDigits, if_pos first, List.takeWhile_append_of_pos more,
      List.dropWhile_append_of_pos more, none.1, none.2, List.append_nil]

theorem readWhole_of_whole {digits rest : List Char} (shape : Whole digits)
    (ends : EndsDigits rest) : readWhole (digits ++ rest) = .ok (digits, rest) := by
  obtain ⟨all, zero⟩ := shape
  rw [readWhole, readDigits_of_digits all ends]
  split
  · next same =>
    simp only [Except.ok.injEq, Prod.mk.injEq] at same
    have only := zero (by rw [same.1]; rfl)
    rw [only] at same
    cases same.1
  · rfl

theorem readFraction_of_ends {rest : List Char} (noPoint : rest.head? ≠ some '.') :
    readFraction rest = .ok ([], rest) := by
  cases rest with
  | nil => rfl
  | cons c rest =>
    have other : c ≠ '.' := fun same => noPoint (congrArg some same)
    rw [readFraction]
    simpa using other

theorem readFraction_of_fraction {fraction rest : List Char} (shape : Fraction fraction)
    (ends : EndsDigits rest) (noPoint : rest.head? ≠ some '.') :
    ∃ digits, readFraction (fraction ++ rest) = .ok (digits, rest) := by
  cases shape with
  | absent => exact ⟨[], readFraction_of_ends noPoint⟩
  | digits digits => exact ⟨_, readDigits_of_digits digits ends⟩

theorem readSign_of_digits {sign digits : List Char}
    (signed : sign = [] ∨ sign = ['+'] ∨ sign = ['-']) (shape : Digits digits)
    (rest : List Char) : (readSign (sign ++ (digits ++ rest))).2 = digits ++ rest := by
  obtain ⟨some, all⟩ := shape
  cases digits with
  | nil => exact absurd rfl some
  | cons c digits =>
    have first := all c List.mem_cons_self
    have noMinus : c ≠ '-' := by
      rintro rfl
      cases first
    have noPlus : c ≠ '+' := by
      rintro rfl
      cases first
    rcases signed with rfl | rfl | rfl
    · rw [List.nil_append, List.cons_append, readSign]
      · simpa using noMinus
      · simpa using noPlus
    · rfl
    · rfl

theorem readExponent_of_ends {rest : List Char} (ends : EndsNumber rest) :
    readExponent rest = .ok (false, [], rest) := by
  cases rest with
  | nil => rfl
  | cons c rest =>
    obtain ⟨-, -, small, large⟩ := ends c rfl
    have unmarked : ¬(c = 'e' ∨ c = 'E') := by simp [small, large]
    simp only [readExponent, if_neg unmarked]

theorem readExponent_of_exponent {exponent rest : List Char} (shape : Exponent exponent)
    (ends : EndsNumber rest) :
    ∃ negative digits, readExponent (exponent ++ rest) = .ok (negative, digits, rest) := by
  cases shape with
  | absent => exact ⟨false, [], readExponent_of_ends ends⟩
  | @digits mark sign text marked signed digits =>
    have behind := readSign_of_digits signed digits rest
    have number := readDigits_of_digits digits ends.endsDigits
    refine ⟨(readSign (sign ++ (text ++ rest))).1, text, ?_⟩
    simp only [List.cons_append, List.append_assoc, readExponent, if_pos marked, behind, number,
      Bind.bind, Except.bind, Pure.pure, Except.pure]

theorem head?_fraction_exponent {fraction exponent rest : List Char} (decimals : Fraction fraction)
    (power : Exponent exponent) (ends : EndsNumber rest) :
    EndsDigits (fraction ++ (exponent ++ rest)) ∧ EndsDigits (exponent ++ rest) ∧
      (exponent ++ rest).head? ≠ some '.' := by
  have behind : EndsDigits (exponent ++ rest) ∧ (exponent ++ rest).head? ≠ some '.' := by
    cases power with
    | absent => exact ⟨ends.endsDigits, fun point => (ends '.' point).2.1 rfl⟩
    | digits marked =>
      rcases marked with rfl | rfl
      all_goals
        refine ⟨?_, by simp⟩
        rintro c ⟨⟩
        decide
  refine ⟨?_, behind⟩
  cases decimals with
  | absent => exact behind.1
  | digits =>
    rintro c ⟨⟩
    decide

theorem readUnsigned_of_parts (negative : Bool) {whole fraction exponent rest : List Char}
    (digits : Whole whole) (decimals : Fraction fraction) (power : Exponent exponent)
    (ends : EndsNumber rest) :
    ∃ numeral, readUnsigned negative (whole ++ (fraction ++ (exponent ++ rest))) =
      .ok (numeral, rest) := by
  obtain ⟨afterWhole, afterFraction, noPoint⟩ := head?_fraction_exponent decimals power ends
  have first := readWhole_of_whole digits afterWhole
  obtain ⟨decimal, second⟩ := readFraction_of_fraction decimals afterFraction noPoint
  obtain ⟨sign, scale, third⟩ := readExponent_of_exponent power ends
  refine ⟨⟨negative, whole, decimal, !(decimal.isEmpty && scale.isEmpty), sign, scale⟩, ?_⟩
  simp only [readUnsigned, first, second, third, Bind.bind, Except.bind, Pure.pure, Except.pure]

theorem read_of_whole {whole : List Char} (digits : Whole whole) (rest : List Char) :
    read (whole ++ rest) = readUnsigned false (whole ++ rest) := by
  obtain ⟨⟨some, all⟩, -⟩ := digits
  cases whole with
  | nil => exact absurd rfl some
  | cons c whole =>
    have noMinus : c ≠ '-' := by
      rintro rfl
      cases all '-' List.mem_cons_self
    rw [List.cons_append, read]
    simpa using noMinus

theorem skip_of_number {text rest : List Char} (number : Number text) (ends : EndsNumber rest) :
    skip (text ++ rest) = .ok rest := by
  obtain ⟨signed, digits, decimals, power⟩ := number
  simp only [List.append_assoc]
  rcases signed with rfl | rfl
  · obtain ⟨numeral, numbered⟩ := readUnsigned_of_parts false digits decimals power ends
    rw [List.nil_append, skip, read_of_whole digits, numbered]
  · obtain ⟨numeral, numbered⟩ := readUnsigned_of_parts true digits decimals power ends
    rw [List.cons_append, List.nil_append, skip, read, numbered]

theorem read_of_natural {number : Nat} {digits rest : List Char} (natural : Natural number digits)
    (ends : EndsNumber rest) :
    read (digits ++ rest) = .ok (⟨false, digits, [], false, false, []⟩, rest) := by
  have noPoint : rest.head? ≠ some '.' := fun point => (ends '.' point).2.1 rfl
  have first := readWhole_of_whole natural.1 ends.endsDigits
  rw [read_of_whole natural.1]
  simp only [readUnsigned, first, readFraction_of_ends noPoint, readExponent_of_ends ends,
    Bind.bind, Except.bind, Pure.pure, Except.pure]
  rfl

theorem collect_cons (number : Nat) (c : Char) (rest : List Char) :
    collect number (c :: rest) =
      if 10 * number + digit c < 2 ^ 64 then collect (10 * number + digit c) rest
      else (number, c :: rest) :=
  rfl

theorem collect_of_lt {digits : List Char} {number : Nat}
    (fits : Nat.ofDigitChars 10 digits number < 2 ^ 64) :
    collect number digits = (Nat.ofDigitChars 10 digits number, []) := by
  induction digits generalizing number with
  | nil => rfl
  | cons c digits ih =>
    rw [Nat.ofDigitChars_cons] at fits
    have grows : 10 * number + digit c ≤
        Nat.ofDigitChars 10 digits (10 * number + (c.toNat - '0'.toNat)) := by
      rw [Nat.ofDigitChars_eq_ofDigitChars_zero]
      exact Nat.le_add_right_of_le (Nat.le_mul_of_pos_left _ (Nat.pow_pos (by decide)))
    have small : 10 * number + digit c < 2 ^ 64 := Nat.lt_of_le_of_lt grows fits
    rw [collect_cons, if_pos small, Nat.ofDigitChars_cons]
    exact ih fits

theorem nearest_le (number : Nat) : nearest number ≤ 2 * number := by
  have unit : 2 ^ (number.log2 - 52) ≤ number ∨ number = 0 := by
    by_cases zero : number = 0
    · exact .inr zero
    · have power : 2 ^ (number.log2 - 52) ≤ 2 ^ number.log2 :=
        Nat.pow_le_pow_right (by decide) (Nat.sub_le _ _)
      exact .inl (Nat.le_trans power (Nat.log2_self_le zero))
  rcases unit with unit | rfl
  · have high : number / 2 ^ (number.log2 - 52) * 2 ^ (number.log2 - 52) ≤ number :=
      Nat.div_mul_le_self number _
    have next : (number / 2 ^ (number.log2 - 52) + 1) * 2 ^ (number.log2 - 52) =
        number / 2 ^ (number.log2 - 52) * 2 ^ (number.log2 - 52) + 2 ^ (number.log2 - 52) :=
      Nat.succ_mul _ _
    unfold nearest
    simp only [Nat.pow_eq]
    split
    · omega
    · omega
  · decide

theorem exceedsDouble_of_natural {number : Nat} {digits : List Char}
    (natural : Natural number digits) (fits : number < 2 ^ 64) :
    exceedsDouble ⟨false, digits, [], false, false, []⟩ = false := by
  obtain ⟨-, rfl⟩ := natural
  have scale : scaled ⟨false, digits, [], false, false, []⟩ =
      (Nat.ofDigitChars 10 digits 0, 0) := by
    simp only [scaled, collect_of_lt fits]
    rfl
  have bound := nearest_le (Nat.ofDigitChars 10 digits 0)
  have one : nearest (Nat.pow 10 0) = 1 := by decide
  have limit : 2 ^ 65 ≤ doubleLimit := by decide +kernel
  have far : ¬doubleLimit ≤ nearest (Nat.ofDigitChars 10 digits 0) := by omega
  unfold exceedsDouble
  rw [scale]
  split
  · rfl
  · next value power _ same =>
    obtain ⟨rfl, zero⟩ := Prod.mk.inj same
    obtain rfl : 0 = power := Int.ofNat.inj zero
    rw [one, Nat.mul_one, decide_eq_false far]
    rfl
  · rfl

end Numeral

theorem readNumber_of_natural {number : Nat} {digits rest : List Char}
    (natural : Natural number digits) (fits : number < 2 ^ 64) (ends : EndsNumber rest) :
    readNumber (digits ++ rest) = .ok (some number, rest) := by
  have value : Numeral.natural? ⟨false, digits, [], false, false, []⟩ = some number := by
    obtain ⟨-, rfl⟩ := natural
    simp only [Numeral.natural?, Numeral.collect_of_lt fits]
    rfl
  simp only [readNumber, Numeral.read_of_natural natural ends,
    Numeral.exceedsDouble_of_natural natural fits, value, Bind.bind, Except.bind, Pure.pure,
    Except.pure]
  rfl

end RiscvListing.Json
