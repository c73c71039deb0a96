import Mathlib.Algebra.Group.Nat.Defs
import RiscvListing.Basic

namespace RiscvListing.Text

def digitValue (digit : Char) : Nat :=
  if digit.isDigit then digit.toNat - 48 else digit.toNat - 87

theorem digitValue_digitChar {digit : Nat} (bound : digit < 16) :
    digitValue digit.digitChar = digit := by
  have all : ∀ digit : Fin 16, digitValue digit.val.digitChar = digit.val := by decide
  exact all ⟨digit, bound⟩

def numeralValue (base : Nat) (digits : List Char) : Nat :=
  digits.foldl (fun value digit => base * value + digitValue digit) 0

theorem numeralValue_toDigits {base : Nat} (least : 1 < base) (most : base ≤ 16) (n : Nat) :
    numeralValue base (Nat.toDigits base n) = n := by
  induction n using Nat.strongRecOn with
  | ind n ih =>
    by_cases small : n < base
    · rw [Nat.toDigits_of_lt_base small, numeralValue, List.foldl_cons, List.foldl_nil,
        Nat.mul_zero, Nat.zero_add]
      exact digitValue_digitChar (Nat.lt_of_lt_of_le small most)
    · have rest := ih (n / base) (Nat.div_lt_self (by omega) least)
      have last : n % base < 16 :=
        Nat.lt_of_lt_of_le (Nat.mod_lt n (by omega)) most
      rw [numeralValue] at rest
      rw [Nat.toDigits_of_base_le least (by omega), numeralValue, List.foldl_append, rest,
        List.foldl_cons, List.foldl_nil, digitValue_digitChar last]
      exact Nat.div_add_mod n base

theorem numeralValue_zeros (base count : Nat) (digits : List Char) :
    numeralValue base (List.replicate count '0' ++ digits) = numeralValue base digits := by
  induction count with
  | zero => rfl
  | succ count ih =>
    rw [List.replicate_succ, List.cons_append, ← ih]
    rfl

theorem hex_inj_of_alignRight {width m n : Nat}
    (same : alignRight width (hex m) '0' = alignRight width (hex n) '0') : m = n := by
  have digits := congrArg (fun text => numeralValue 16 text.toList) same
  simpa [alignRight, hex, numeralValue_zeros, numeralValue_toDigits] using digits

theorem toDigits_inj {base m n : Nat} (least : 1 < base) (most : base ≤ 16) :
    Nat.toDigits base m = Nat.toDigits base n ↔ m = n := by
  constructor
  · intro same
    have values := congrArg (numeralValue base) same
    rwa [numeralValue_toDigits least most, numeralValue_toDigits least most] at values
  · intro equal
    rw [equal]

theorem decimal_inj {m n : Nat} : decimal m = decimal n ↔ m = n := by
  rw [decimal, decimal, String.ofList_inj]
  exact toDigits_inj (by decide) (by decide)

theorem hex_inj {m n : Nat} : hex m = hex n ↔ m = n := by
  rw [hex, hex, String.ofList_inj]
  exact toDigits_inj (by decide) (by decide)

theorem isDigit_of_mem_decimal {n : Nat} {digit : Char} (member : digit ∈ (decimal n).toList) :
    digit.isDigit = true := by
  rw [decimal, String.toList_ofList] at member
  exact Nat.isDigit_of_mem_toDigits (by decide) (by decide) member

theorem mem_signedDecimal {n : Int} {character : Char}
    (member : character ∈ (signedDecimal n).toList) :
    character = '-' ∨ character.isDigit = true := by
  unfold signedDecimal at member
  split at member
  · rw [String.toList_append, List.mem_append] at member
    rcases member with sign | digit
    · exact .inl (List.mem_singleton.mp sign)
    · exact .inr (isDigit_of_mem_decimal digit)
  · exact .inr (isDigit_of_mem_decimal member)

theorem decimal_ne {text : String} (letter : text.toList.all Char.isDigit = false) (n : Nat) :
    decimal n ≠ text := by
  rintro rfl
  have digits : (decimal n).toList.all Char.isDigit = true :=
    List.all_eq_true.mpr fun _ member => isDigit_of_mem_decimal member
  rw [digits] at letter
  cases letter

theorem minus_decimal_ne (m n : Nat) : "-" ++ decimal m ≠ decimal n := by
  have sign : ("-" ++ decimal m).toList.all Char.isDigit = false := by
    rw [String.toList_append, List.all_append]
    rfl
  exact (decimal_ne sign n).symm

theorem signedDecimal_inj {m n : Int} : signedDecimal m = signedDecimal n ↔ m = n := by
  constructor
  · intro same
    unfold signedDecimal at same
    split at same
    next negative =>
      split at same
      next alsoNegative =>
        have values := decimal_inj.mp (String.append_right_inj _ |>.mp same)
        omega
      next => exact absurd same (minus_decimal_ne _ _)
    next =>
      split at same
      next => exact absurd same.symm (minus_decimal_ne _ _)
      next =>
        have values := decimal_inj.mp same
        omega
  · intro equal
    rw [equal]

theorem digitChar_isDigit_or_isLower {digit : Nat} (bound : digit < 16) :
    (digit.digitChar.isDigit || digit.digitChar.isLower) = true := by
  have all : ∀ digit : Fin 16,
    (digit.val.digitChar.isDigit || digit.val.digitChar.isLower) = true := by decide
  exact all ⟨digit, bound⟩

theorem digitChar_of_mem_toDigits {base n : Nat} {digit : Char} (least : 1 < base)
    (member : digit ∈ Nat.toDigits base n) : ∃ value < base, digit = value.digitChar := by
  induction n using Nat.strongRecOn with
  | ind n ih =>
    by_cases small : n < base
    · rw [Nat.toDigits_of_lt_base small, List.mem_singleton] at member
      exact ⟨n, small, member⟩
    · rw [Nat.toDigits_of_base_le least (by omega), List.mem_append, List.mem_singleton] at member
      rcases member with member | member
      · exact ih (n / base) (Nat.div_lt_self (by omega) least) member
      · exact ⟨n % base, Nat.mod_lt n (by omega), member⟩

theorem digitChar_of_mem_alignRight {width n : Nat} {digit : Char}
    (member : digit ∈ (alignRight width (hex n) '0').toList) :
    ∃ value < 16, digit = value.digitChar := by
  simp only [alignRight, hex, String.toList_append, String.toList_ofList, List.mem_append,
    List.mem_replicate] at member
  rcases member with ⟨-, rfl⟩ | member
  · exact ⟨0, by decide, rfl⟩
  · exact digitChar_of_mem_toDigits (by decide) member

theorem length_hex_le_iff {width : Nat} (positive : 0 < width) (n : Nat) :
    (hex n).length ≤ width ↔ n < 16 ^ width := by
  rw [hex, String.length_ofList]
  exact Nat.length_toDigits_le_iff (by decide) positive

theorem length_decimal_le_iff {width : Nat} (positive : 0 < width) (n : Nat) :
    (decimal n).length ≤ width ↔ n < 10 ^ width := by
  rw [decimal, String.length_ofList]
  exact Nat.length_toDigits_le_iff (by decide) positive

theorem length_alignRight (width : Nat) (text : String) (fill : Char) :
    (alignRight width text fill).length = max width text.length := by
  rw [alignRight, String.length_append, String.length_ofList, List.length_replicate]
  omega

theorem length_alignLeft (width : Nat) (text : String) :
    (alignLeft width text).length = max width text.length := by
  rw [alignLeft, String.length_append, String.length_ofList, List.length_replicate]
  omega

end RiscvListing.Text
