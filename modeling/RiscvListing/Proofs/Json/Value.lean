import RiscvListing.Json.Skip
import RiscvListing.Proofs.Json.Number

namespace RiscvListing.Json

open Grammar

theorem readWord_append (word rest : List Char) : readWord word (word ++ rest) = .ok rest := by
  induction word with
  | nil => rw [List.nil_append, readWord]
  | cons c word ih => rw [List.cons_append, readWord, if_pos rfl, ih]

namespace Skip

def resume : Progress → Except Fault (List Char)
  | .done rest => .ok rest
  | .more awaiting brackets rest => run awaiting brackets rest

theorem run_eq (awaiting : Awaiting) (brackets : List Bracket) (input : List Char) :
    run awaiting brackets input =
      match skipBlank input with
      | [] => .error .unfinished
      | c :: tail => (token awaiting brackets c tail).bind resume := by
  rw [run]
  split
  · next none => rw [none]
  · next c tail start =>
    simp only [start]
    split
    · next fault failed =>
      rw [failed]
      rfl
    · next rest finished =>
      rw [finished]
      rfl
    · next awaiting brackets rest continued =>
      rw [continued]
      rfl

theorem run_blank {blank : List Char} (shape : Blank blank) (awaiting : Awaiting)
    (brackets : List Bracket) (input : List Char) :
    run awaiting brackets (blank ++ input) = run awaiting brackets input := by
  rw [run_eq, run_eq, skipBlank_append shape]

theorem run_cons {awaiting : Awaiting} {brackets : List Bracket} {c : Char} {tail : List Char}
    {progress : Progress} (solid : isBlank c = false)
    (passed : token awaiting brackets c tail = .ok progress) :
    run awaiting brackets (c :: tail) = resume progress := by
  rw [run_eq, skipBlank_cons solid]
  simp only [passed]
  rfl

theorem run_more {awaiting later : Awaiting} {brackets inner : List Bracket} {c : Char}
    {tail rest : List Char} (solid : isBlank c = false)
    (passed : token awaiting brackets c tail = .ok (.more later inner rest)) :
    run awaiting brackets (c :: tail) = run later inner rest :=
  run_cons solid passed

def Starts (c : Char) : Prop :=
  isBlank c = false ∧ c ≠ ']'

/-- A text is passed over as one value, whatever surrounds it. -/
structure Passes (text : List Char) : Prop where
  starts : ∃ c tail, text = c :: tail ∧ Starts c
  passes : ∀ (brackets : List Bracket) (rest : List Char), EndsNumber rest →
    run .value brackets (text ++ rest) = resume (valueEnd brackets rest)

theorem passes_of_scalar {c : Char} {text : List Char} (starts : Starts c)
    (simple : c ≠ '[' ∧ c ≠ '\x7b')
    (passed : ∀ rest, EndsNumber rest → scalar c (text ++ rest) = .ok rest) :
    Passes (c :: text) where
  starts := ⟨c, text, rfl, starts⟩
  passes := by
    intro brackets rest ends
    have one : token .value brackets c (text ++ rest) = .ok (valueEnd brackets rest) := by
      rw [token, value, if_neg simple.1, if_neg simple.2, passed rest ends]
      rfl
    exact run_cons starts.1 one

theorem passes_number {text : List Char} (number : Number text) : Passes text := by
  obtain ⟨c, tail, rfl, first⟩ := number.first
  have other : ∀ mark : Char, mark.isDigit = false → mark ≠ '-' → c ≠ mark := by
    rintro mark plain unsigned rfl
    rcases first with minus | digit
    · exact unsigned minus
    · rw [plain] at digit
      cases digit
  have solid : isBlank c = false := by
    rcases first with rfl | digit
    · rfl
    · exact isBlank_of_isDigit digit
  refine passes_of_scalar ⟨solid, other _ (by decide) (by decide)⟩
    ⟨other _ (by decide) (by decide), other _ (by decide) (by decide)⟩ ?_
  intro rest ends
  rw [scalar, if_neg (other _ (by decide) (by decide)), if_neg (other _ (by decide) (by decide)),
    if_neg (other _ (by decide) (by decide)), if_neg (other _ (by decide) (by decide)),
    if_pos first]
  exact Numeral.skip_of_number number ends

theorem passes_quoted {text : List Char} (quotable : Quotable text) :
    Passes ('"' :: (text ++ ['"'])) := by
  refine passes_of_scalar ⟨by decide, by decide⟩ (by decide) ?_
  intro rest ends
  rw [List.append_assoc, List.singleton_append]
  exact Quoted.skip_of_quotable quotable rest

end Skip

namespace Bracket

def close : Bracket → Char
  | array => ']'
  | object => '\x7d'

def first : Bracket → Skip.Awaiting
  | array => .element
  | object => .firstKey

def next : Bracket → Skip.Awaiting
  | array => .value
  | object => .key

theorem endsNumber_close (bracket : Bracket) (rest : List Char) :
    EndsNumber (bracket.close :: rest) := by
  cases bracket with
  | array => exact endsNumber_cons (by decide) rest
  | object => exact endsNumber_cons (by decide) rest

end Bracket

namespace Skip

variable {bracket : Bracket}

theorem run_separator_comma (outer : List Bracket) (rest : List Char) :
    run .separator (bracket :: outer) (',' :: rest) =
      run bracket.next (bracket :: outer) rest := by
  cases bracket with
  | array => exact run_more rfl rfl
  | object => exact run_more rfl rfl

theorem run_separator_close (outer : List Bracket) (rest : List Char) :
    run .separator (bracket :: outer) (bracket.close :: rest) =
      resume (valueEnd outer rest) := by
  cases bracket with
  | array => exact run_cons rfl rfl
  | object => exact run_cons rfl rfl

theorem run_first_close (outer : List Bracket) (rest : List Char) :
    run bracket.first (bracket :: outer) (bracket.close :: rest) =
      resume (valueEnd outer rest) := by
  cases bracket with
  | array => exact run_cons rfl rfl
  | object => exact run_cons rfl rfl

def PassesItem (bracket : Bracket) (text : List Char) : Prop :=
  ∀ awaiting, awaiting = bracket.first ∨ awaiting = bracket.next →
    ∀ (outer : List Bracket) (rest : List Char), EndsNumber rest →
      run awaiting (bracket :: outer) (text ++ rest) = run .separator (bracket :: outer) rest

theorem run_separated {α : Type} {Item : α → List Char → Prop} {items : List α}
    {text : List Char} (separated : Separated Item items text)
    (each : ∀ item ∈ items, ∀ text, Item item text → PassesItem bracket text)
    {awaiting : Awaiting} (start : awaiting = bracket.first ∨ awaiting = bracket.next)
    (outer : List Bracket) (rest : List Char) :
    run awaiting (bracket :: outer) (text ++ bracket.close :: rest) =
      resume (valueEnd outer rest) := by
  induction separated generalizing awaiting with
  | last shape =>
    have passed := each _ List.mem_cons_self _ shape awaiting start outer
      (bracket.close :: rest) (bracket.endsNumber_close rest)
    rw [passed, run_separator_close]
  | @cons item items text more shape separated ih =>
    have passed := each _ List.mem_cons_self _ shape awaiting start outer
      (',' :: (more ++ bracket.close :: rest)) (endsNumber_cons (by decide) _)
    rw [List.append_assoc, List.cons_append, passed, run_separator_comma]
    exact ih (fun item member => each item (List.mem_cons_of_mem _ member)) (.inr rfl)

theorem run_listed {α : Type} {Item : α → List Char → Prop} {items : List α} {text : List Char}
    (listed : Listed Item items text)
    (each : ∀ item ∈ items, ∀ text, Item item text → PassesItem bracket text)
    (outer : List Bracket) (rest : List Char) :
    run bracket.first (bracket :: outer) (text ++ bracket.close :: rest) =
      resume (valueEnd outer rest) := by
  cases listed with
  | none blank => rw [run_blank blank, run_first_close]
  | some separated => exact run_separated separated each (.inl rfl) outer rest

theorem passesItem_element {value text : List Char} (passes : Passes value)
    (element : Element value text) : PassesItem .array text := by
  obtain ⟨blank, alsoBlank⟩ := element
  next before after =>
  intro awaiting start outer rest ends
  have later := endsNumber_blank alsoBlank ends
  have passed := passes.passes (.array :: outer) (after ++ rest) later
  have same : run awaiting (.array :: outer) (value ++ (after ++ rest)) =
      run .value (.array :: outer) (value ++ (after ++ rest)) := by
    rcases start with rfl | rfl
    · obtain ⟨c, tail, rfl, solid, notClosing⟩ := passes.starts
      have token : token .element (.array :: outer) c (tail ++ (after ++ rest)) =
          token .value (.array :: outer) c (tail ++ (after ++ rest)) := if_neg notClosing
      rw [Bracket.first, run_eq, run_eq, List.cons_append, skipBlank_cons solid]
      simp only [token]
    · rfl
  rw [List.append_assoc, List.append_assoc, run_blank blank, same, passed]
  exact run_blank alsoBlank .separator (.array :: outer) rest

theorem key_of_quotable {quoted beside : List Char} (quotable : Quotable quoted)
    (blank : Blank beside) (brackets : List Bracket) (rest : List Char) :
    key brackets '"' (quoted ++ '"' :: (beside ++ ':' :: rest)) =
      .ok (.more .value brackets rest) := by
  rw [key, if_pos rfl, Quoted.skip_of_quotable quotable]
  simp only [skipBlank_append_cons blank (show isBlank ':' = false from rfl)]

theorem passesItem_member {member : List Char × List Char} {text : List Char}
    (passes : Passes member.2) (shape : Member Verbatim member text) :
    PassesItem .object text := by
  obtain ⟨blank, ⟨rfl, quotable⟩, besideKey, beforeValue, behind⟩ := shape
  next key value before beside between after =>
  intro awaiting start outer rest ends
  have later := endsNumber_blank behind ends
  have passed := passes.passes (.object :: outer) (after ++ rest) later
  have named := key_of_quotable quotable besideKey (.object :: outer)
    (between ++ (value ++ (after ++ rest)))
  have opened : run awaiting (.object :: outer)
      ('"' :: (key ++ '"' :: (beside ++ ':' :: (between ++ (value ++ (after ++ rest)))))) =
        run .value (.object :: outer) (between ++ (value ++ (after ++ rest))) := by
    rcases start with rfl | rfl
    · exact run_more rfl named
    · exact run_more rfl named
  simp only [List.append_assoc, List.cons_append]
  rw [run_blank blank, opened, run_blank beforeValue, passed]
  exact run_blank behind .separator (.object :: outer) rest

theorem passes_array {elements : List (List Char)} {text : List Char}
    (listed : Listed Element elements text) (each : ∀ element ∈ elements, Passes element) :
    Passes ('[' :: (text ++ [']'])) where
  starts := ⟨'[', _, rfl, by decide, by decide⟩
  passes := by
    intro brackets rest ends
    have opened : run .value brackets ('[' :: (text ++ [']'] ++ rest)) =
        run .element (.array :: brackets) (text ++ [']'] ++ rest) := run_more rfl rfl
    rw [List.cons_append, opened, List.append_assoc]
    exact run_listed listed (fun element member _ => passesItem_element (each element member))
      brackets rest

theorem passes_object {members : List (List Char × List Char)} {text : List Char}
    (listed : Listed (Member Verbatim) members text)
    (each : ∀ member ∈ members, Passes member.2) :
    Passes ('\x7b' :: (text ++ ['\x7d'])) where
  starts := ⟨'\x7b', _, rfl, by decide, by decide⟩
  passes := by
    intro brackets rest ends
    have opened : run .value brackets ('\x7b' :: (text ++ ['\x7d'] ++ rest)) =
        run .firstKey (.object :: brackets) (text ++ ['\x7d'] ++ rest) := run_more rfl rfl
    rw [List.cons_append, opened, List.append_assoc]
    exact run_listed listed (fun member inside _ => passesItem_member (each member inside))
      brackets rest

/-- Whatever its depth, a value is passed over exactly up to its end. -/
theorem passes_of_value {text : List Char} (value : Value text) : Passes text := by
  induction value with
  | null =>
    refine passes_of_scalar ⟨by decide, by decide⟩ (by decide) ?_
    intro rest ends
    exact readWord_append ['u', 'l', 'l'] rest
  | true =>
    refine passes_of_scalar ⟨by decide, by decide⟩ (by decide) ?_
    intro rest ends
    exact readWord_append ['r', 'u', 'e'] rest
  | false =>
    refine passes_of_scalar ⟨by decide, by decide⟩ (by decide) ?_
    intro rest ends
    exact readWord_append ['a', 'l', 's', 'e'] rest
  | number number => exact passes_number number
  | quoted quotable => exact passes_quoted quotable
  | array listed values ih => exact passes_array listed ih
  | object listed values ih => exact passes_object listed ih

end Skip

theorem skipValue_of_value {text blank rest : List Char} (value : Value text)
    (shape : Blank blank) (ends : EndsNumber rest) :
    skipValue (blank ++ (text ++ rest)) = .ok rest := by
  rw [skipValue, Skip.run_blank shape]
  exact (Skip.passes_of_value value).passes [] rest ends

end RiscvListing.Json
