import RiscvListing.Report.Basic
import RiscvListing.Proofs.Text.Numeral

namespace RiscvListing.Report

theorem length_address (address : Address) :
    (Text.alignRight 8 (Text.hex address.toNat) '0').toList.length = 8 := by
  have short : (Text.hex address.toNat).length ≤ 8 :=
    (Text.length_hex_le_iff (by decide) _).mpr address.isLt
  rw [String.length_toList, Text.length_alignRight]
  exact Nat.max_eq_left short

theorem labelLine_inj {address other : Address} {name another : String} :
    labelLine address name = labelLine other another ↔ address = other ∧ name = another := by
  constructor
  · intro same
    have characters := congrArg String.toList same
    simp only [labelLine, String.toList_append, List.append_assoc] at characters
    obtain ⟨addresses, names⟩ := List.append_inj characters
      ((length_address address).trans (length_address other).symm)
    have equal := Text.hex_inj_of_alignRight (String.toList_inj.mp addresses)
    refine ⟨BitVec.eq_of_toNat_eq equal, ?_⟩
    exact String.toList_inj.mp (List.append_cancel_right (List.append_cancel_left names))
  · intro equal
    rw [equal.1, equal.2]

/-- Whether a line starts with a digit. Among the lines of a report only labels do. -/
def startsWithDigit (line : String) : Bool :=
  line.toList.head?.any fun first => first.isDigit || first.isLower

theorem startsWithDigit_labelLine (address : Address) (name : String) :
    startsWithDigit (labelLine address name) = true := by
  have digits := length_address address
  rw [startsWithDigit, labelLine, String.toList_append, String.toList_append, String.toList_append]
  cases column : (Text.alignRight 8 (Text.hex address.toNat) '0').toList with
  | nil =>
    rw [column] at digits
    cases digits
  | cons first rest =>
    have member : first ∈ (Text.alignRight 8 (Text.hex address.toNat) '0').toList := by
      simp [column]
    obtain ⟨digit, bound, rfl⟩ := Text.digitChar_of_mem_alignRight member
    exact Text.digitChar_isDigit_or_isLower bound

theorem startsWithDigit_instructionLine (labels : Labels) (word : CodeWord) :
    startsWithDigit (instructionLine labels word) = false := by
  simp [startsWithDigit, instructionLine, String.toList_append]

theorem startsWithDigit_symbolLines {symbols : List Elf.Symbol} {line : String}
    (member : line ∈ symbolLines symbols) : startsWithDigit line = false := by
  simp only [symbolLines, List.mem_cons, List.mem_map] at member
  rcases member with rfl | rfl | rfl | ⟨row, -, rfl⟩
  · simp [startsWithDigit]
  · simp [startsWithDigit]
  · delta symbolHeader
    simp only [startsWithDigit, String.toList_append, List.head?_append]
    rfl
  · delta symbolRow
    simp only [startsWithDigit, String.toList_append, List.head?_append]
    rfl

theorem ne_labelLine {line : String} (plain : startsWithDigit line = false) (address : Address)
    (name : String) : line ≠ labelLine address name := by
  intro same
  have digit := startsWithDigit_labelLine address name
  rw [← same, plain] at digit
  cases digit

theorem count_labelLine_codeLines (labels : Labels) (word : CodeWord) (address : Address)
    (name : String) :
    (codeLines labels word).count (labelLine address name) =
      if word.address = address ∧ labels.get? address = some name then 1 else 0 := by
  have apart := ne_labelLine (startsWithDigit_instructionLine labels word) address name
  unfold codeLines
  cases found : labels.get? word.address with
  | none =>
    have unnamed : ¬(word.address = address ∧ labels.get? address = some name) := by
      intro both
      obtain ⟨same, named⟩ := both
      rw [← same, found] at named
      cases named
    simp [unnamed, apart]
  | some known =>
    by_cases same : word.address = address
    · subst address
      by_cases equal : known = name
      · subst name
        simp [found, apart]
      · have different : labelLine word.address known ≠ labelLine word.address name := by
          intro lines
          exact equal (labelLine_inj.mp lines).2
        simp [found, equal, apart, different]
    · have different : labelLine word.address known ≠ labelLine address name := by
        intro lines
        exact same (labelLine_inj.mp lines).1
      simp [same, apart, different]

theorem count_labelLine_textLines (labels : Labels) (code : List CodeWord) (address : Address)
    (name : String) :
    (textLines labels code).count (labelLine address name) =
      if labels.get? address = some name then (code.map CodeWord.address).count address
      else 0 := by
  have title : ".text" ≠ labelLine address name :=
    ne_labelLine (by simp [startsWithDigit]) address name
  rw [textLines, List.count_cons_of_ne title]
  induction code with
  | nil => simp
  | cons word code ih =>
    rw [List.flatMap_cons, List.count_append, ih, count_labelLine_codeLines, List.map_cons,
      List.count_cons]
    by_cases named : labels.get? address = some name
    · by_cases same : word.address = address
      · simp [named, same, Nat.add_comm]
      · simp [named, same]
    · simp [named]

theorem count_labelLine_symbolLines (symbols : List Elf.Symbol) (address : Address)
    (name : String) : (symbolLines symbols).count (labelLine address name) = 0 := by
  rw [List.count_eq_zero]
  intro member
  exact ne_labelLine (startsWithDigit_symbolLines member) address name rfl

end RiscvListing.Report
