import RiscvListing.Proofs.Text.Numeral

namespace RiscvListing.Text

theorem append_mark_inj {mark : Char} {first second rest tail : List Char}
    (unmarked : mark ∉ first) (alsoUnmarked : mark ∉ second)
    (same : first ++ mark :: rest = second ++ mark :: tail) : first = second ∧ rest = tail := by
  have cut : ∀ {text behind : List Char}, mark ∉ text →
      (text ++ mark :: behind).takeWhile (· ≠ mark) = text := by
    intro text behind absent
    rw [List.takeWhile_append_of_pos, List.takeWhile_cons_of_neg (by simp), List.append_nil]
    intro c member
    simpa using fun equal : c = mark => absent (equal ▸ member)
  have texts := congrArg (List.takeWhile (· ≠ mark)) same
  rw [cut unmarked, cut alsoUnmarked] at texts
  subst second
  exact ⟨rfl, (List.cons.inj (List.append_cancel_left same)).2⟩

theorem append_separator_inj {mark : Char} {first second separator rest tail : String}
    (start : separator.toList.head? = some mark) (unmarked : mark ∉ first.toList)
    (alsoUnmarked : mark ∉ second.toList)
    (same : first ++ (separator ++ rest) = second ++ (separator ++ tail)) :
    first = second ∧ rest = tail := by
  obtain ⟨more, shape⟩ := List.head?_eq_some_iff.mp start
  have characters := congrArg String.toList same
  simp only [String.toList_append, shape, List.cons_append] at characters
  have parts := append_mark_inj unmarked alsoUnmarked characters
  exact ⟨String.toList_inj.mp parts.1, String.toList_inj.mp (List.append_cancel_left parts.2)⟩

theorem not_mem_signedDecimal {mark : Char} (plain : mark.isDigit = false) (unsigned : mark ≠ '-')
    (n : Int) : mark ∉ (signedDecimal n).toList := by
  intro member
  rcases mem_signedDecimal member with sign | digit
  · exact unsigned sign
  · rw [plain] at digit
    cases digit

theorem not_mem_hex {mark : Char} (plain : (mark.isDigit || mark.isLower) = false) (n : Nat) :
    mark ∉ (hex n).toList := by
  intro member
  rw [hex, String.toList_ofList] at member
  obtain ⟨digit, bound, rfl⟩ := digitChar_of_mem_toDigits (by decide) member
  rw [digitChar_isDigit_or_isLower bound] at plain
  cases plain

theorem alignRight_inj {width : Nat} {first second : String} {fill : Char}
    (unfilled : fill ∉ first.toList) (alsoUnfilled : fill ∉ second.toList)
    (same : alignRight width first fill = alignRight width second fill) : first = second := by
  have kept : ∀ {text : String}, fill ∉ text.toList →
      (alignRight width text fill).toList.filter (· ≠ fill) = text.toList := by
    intro text absent
    have column : (List.replicate (width - text.length) fill).filter (· ≠ fill) = [] := by simp
    rw [alignRight, String.toList_append, String.toList_ofList, List.filter_append, column,
      List.nil_append, List.filter_eq_self]
    intro character member
    simpa using fun equal : character = fill => absent (equal ▸ member)
  have characters := congrArg (fun text => text.toList.filter (· ≠ fill)) same
  simp only [kept unfilled, kept alsoUnfilled] at characters
  exact String.toList_inj.mp characters

end RiscvListing.Text
