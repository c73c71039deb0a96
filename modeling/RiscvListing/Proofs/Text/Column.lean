import RiscvListing.Proofs.Text.Delimiter

namespace RiscvListing.Text

structure Entry (text : String) : Prop where
  shown : text.toList ≠ []
  plain : ' ' ∉ text.toList

theorem entry_hex (n : Nat) : Entry (hex n) where
  shown := by
    rw [hex, String.toList_ofList]
    exact Nat.toDigits_ne_nil
  plain := not_mem_hex (by decide) n

theorem entry_decimal (n : Nat) : Entry (decimal n) where
  shown := by
    rw [decimal, String.toList_ofList]
    exact Nat.toDigits_ne_nil
  plain := by
    intro member
    cases isDigit_of_mem_decimal member

theorem dropWhile_alignRight {text : String} (entry : Entry text) (width : Nat)
    (rest : String) :
    (alignRight width text ' ' ++ rest).toList.dropWhile (· = ' ') = (text ++ rest).toList := by
  obtain ⟨head, tail, shape⟩ := List.exists_cons_of_ne_nil entry.shown
  have start : head ≠ ' ' := by
    intro blank
    apply entry.plain
    rw [shape, blank]
    exact List.mem_cons_self
  rw [alignRight, String.toList_append, String.toList_append, String.toList_append,
    String.toList_ofList, List.append_assoc, List.dropWhile_append_of_pos (by simp), shape,
    List.cons_append, List.dropWhile_cons_of_neg (by simpa using start)]

/-- A text at the right end of its column ends before the separator that follows. The separator
may start with a blank, as the filling does. -/
theorem alignRight_append_inj {width : Nat} {mark : Char}
    {first second separator rest tail : String} (start : separator.toList.head? = some mark)
    (entry : Entry first) (other : Entry second) (unmarked : mark ∉ first.toList)
    (alsoUnmarked : mark ∉ second.toList)
    (same : alignRight width first ' ' ++ (separator ++ rest) =
      alignRight width second ' ' ++ (separator ++ tail)) : first = second ∧ rest = tail := by
  have characters := congrArg (fun text => text.toList.dropWhile (· = ' ')) same
  simp only [dropWhile_alignRight entry, dropWhile_alignRight other] at characters
  exact append_separator_inj start unmarked alsoUnmarked (String.toList_inj.mp characters)

theorem alignLeft_append (width : Nat) (text rest : String) :
    alignLeft width text ++ (" " ++ rest) =
      text ++ (" " ++ (String.ofList (List.replicate (width - text.length) ' ') ++ rest)) := by
  apply String.toList_inj.mp
  have blank : " ".toList = [' '] := rfl
  simp only [alignLeft, String.toList_append, String.toList_ofList, List.append_assoc, blank,
    List.singleton_append, List.append_cancel_left_eq]
  rw [List.append_cons, ← List.replicate_succ', List.replicate_succ, List.cons_append]

theorem alignLeft_append_inj {width : Nat} {first second rest tail : String}
    (entry : Entry first) (other : Entry second)
    (same : alignLeft width first ++ (" " ++ rest) = alignLeft width second ++ (" " ++ tail)) :
    first = second ∧ rest = tail := by
  have blank : " ".toList.head? = some ' ' := rfl
  rw [alignLeft_append, alignLeft_append] at same
  obtain ⟨rfl, filled⟩ := append_separator_inj blank entry.plain other.plain same
  exact ⟨rfl, (String.append_right_inj _).mp filled⟩

end RiscvListing.Text
