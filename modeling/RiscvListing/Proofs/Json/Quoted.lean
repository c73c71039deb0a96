import RiscvListing.Json.Quoted
import RiscvListing.Proofs.Json.Grammar

namespace RiscvListing.Json

open Grammar

theorem isBlank_of_blank {text : List Char} (blank : Blank text) {c : Char} (member : c ∈ text) :
    isBlank c = true := by
  rcases blank c member with rfl | rfl | rfl | rfl
  all_goals rfl

theorem isBlank_of_isDigit {c : Char} (digit : c.isDigit = true) : isBlank c = false := by
  rw [Bool.eq_false_iff]
  intro blank
  simp only [isBlank, Bool.or_eq_true, beq_iff_eq] at blank
  rcases blank with ((rfl | rfl) | rfl) | rfl
  all_goals cases digit

theorem skipBlank_append {blank : List Char} (shape : Blank blank) (rest : List Char) :
    skipBlank (blank ++ rest) = skipBlank rest :=
  List.dropWhile_append_of_pos fun _ member => isBlank_of_blank shape member

theorem skipBlank_cons {c : Char} (solid : isBlank c = false) (rest : List Char) :
    skipBlank (c :: rest) = c :: rest :=
  List.dropWhile_cons_of_neg (by simp [solid])

theorem skipBlank_append_cons {blank : List Char} (shape : Blank blank) {c : Char}
    (solid : isBlank c = false) (rest : List Char) :
    skipBlank (blank ++ c :: rest) = c :: rest := by
  rw [skipBlank_append shape, skipBlank_cons solid]

namespace Quoted

theorem hexDigit?_of_hexDigit {value : Nat} {c : Char} (digit : HexDigit value c) :
    hexDigit? c = some value := by
  have all : ∀ value : Fin 16, hexDigit? value.val.digitChar = some value.val ∧
      hexDigit? value.val.digitChar.toUpper = some value.val := by
    decide
  obtain ⟨bound, rfl | rfl⟩ := digit
  · exact (all ⟨value, bound⟩).1
  · exact (all ⟨value, bound⟩).2

theorem escaped?_of_mem {letter c : Char} (known : (letter, c) ∈ escapes) :
    escaped? letter = some c ∧ letter ≠ 'u' := by
  have all : ∀ entry ∈ escapes, escaped? entry.1 = some entry.2 ∧ entry.1 ≠ 'u' := by
    decide
  exact all _ known

theorem scan_quote (rest : List Char) : scan ('"' :: rest) = ([], .ok rest) := by
  rw [scan]

theorem scan_plain {c : Char} (plain : Plain c) (rest : List Char) :
    scan (c :: rest) = (.plain c :: (scan rest).1, (scan rest).2) := by
  obtain ⟨printable, unquoted, unescaped⟩ := plain
  have visible : ¬c < ' ' := Char.not_lt.mpr printable
  rw [scan.eq_7 c rest unquoted, if_neg visible]
  all_goals simp [unescaped]

theorem scan_escape {letter c : Char} (known : (letter, c) ∈ escapes) (rest : List Char) :
    scan ('\\' :: letter :: rest) = (.plain c :: (scan rest).1, (scan rest).2) := by
  obtain ⟨stands, noCode⟩ := escaped?_of_mem known
  rw [scan.eq_5 letter rest (by simp [noCode]) noCode, stands]

theorem scan_code {number : Nat} {digits : List Char} (code : Code number digits)
    (rest : List Char) :
    scan (digits ++ rest) = (.code number :: (scan rest).1, (scan rest).2) := by
  obtain ⟨high, upper, lower, low⟩ := code
  next a b c d first second third fourth =>
  have value : hexCode? first second third fourth =
      some (a * 4096 + b * 256 + c * 16 + d) := by
    simp only [hexCode?, hexDigit?_of_hexDigit high, hexDigit?_of_hexDigit upper,
      hexDigit?_of_hexDigit lower, hexDigit?_of_hexDigit low, Option.bind_eq_bind,
      Option.bind_some, Option.pure_def, Option.some.injEq]
    omega
  simp only [List.cons_append, List.nil_append, scan, value]

theorem isLeading_iff {number : Nat} : isLeading number = true ↔ Leading number := by
  simp [isLeading, Leading]

theorem isTrailing_iff {number : Nat} : isTrailing number = true ↔ Trailing number := by
  simp [isTrailing, Trailing]

/-- A quoted text is passed over up to its closing quote, whatever its numbers stand for. -/
theorem skip_of_quotable {text : List Char} (quotable : Quotable text) (rest : List Char) :
    skip (text ++ '"' :: rest) = .ok rest := by
  unfold skip
  induction quotable with
  | nil => rw [List.nil_append, scan_quote]
  | plain plain quotable ih => rw [List.cons_append, scan_plain plain, ih]
  | escape known quotable ih => rw [List.cons_append, List.cons_append, scan_escape known, ih]
  | code code quotable ih => rw [List.append_assoc, scan_code code, ih]

theorem join_single {number : Nat} (single : ¬Leading number ∧ ¬Trailing number)
    (ending : Except Fault (List Char)) (pieces : List Piece) :
    join ending (.code number :: pieces) = prepend (Char.ofNat number) (join ending pieces) := by
  have noLead : ¬isLeading number = true := mt isLeading_iff.mp single.1
  have noTrail : ¬isTrailing number = true := mt isTrailing_iff.mp single.2
  rw [join.eq_def]
  simp only [if_neg noLead, if_neg noTrail]

theorem join_pair {leading trailing : Nat} (leads : Leading leading) (trails : Trailing trailing)
    (ending : Except Fault (List Char)) (pieces : List Piece) :
    join ending (.code leading :: .code trailing :: pieces) =
      prepend (pair leading trailing) (join ending pieces) := by
  have noTrail : ¬isTrailing leading = true := by
    rw [isTrailing_iff]
    intro also
    have least := leads.2
    have most := also.1
    omega
  rw [join.eq_3, if_neg noTrail, if_pos (isLeading_iff.mpr leads),
    if_pos (isTrailing_iff.mpr trails)]

theorem pair_eq (leading trailing : Nat) :
    pair leading trailing =
      Char.ofNat (0x10000 + (leading - 0xd800) * 0x400 + (trailing - 0xdc00)) := by
  have sum : (leading - 0xd800) * 0x400 + (trailing - 0xdc00) + 0x10000 =
      0x10000 + (leading - 0xd800) * 0x400 + (trailing - 0xdc00) := by omega
  rw [pair, sum]

theorem read_of_spells {text quoted : List Char} (spells : Spells text quoted)
    (rest : List Char) : read (quoted ++ '"' :: rest) = .ok (text, rest) := by
  unfold read
  induction spells with
  | nil =>
    rw [List.nil_append, scan_quote]
    rfl
  | plain plain spells ih =>
    rw [List.cons_append, scan_plain plain, join, ih]
    rfl
  | escape known spells ih =>
    rw [List.cons_append, List.cons_append, scan_escape known, join, ih]
    rfl
  | code code single spells ih =>
    rw [List.append_assoc, scan_code code, join_single single, ih]
    rfl
  | pair high low leads trails spells ih =>
    rw [List.append_assoc, List.append_assoc, scan_code high, scan_code low,
      join_pair leads trails, ih, pair_eq]
    rfl

end Quoted

end RiscvListing.Json
