import RiscvListing.Proofs.Text.Delimiter
import RiscvListing.Proofs.Report.CrossReference

namespace RiscvListing

namespace Report

theorem colon_not_mem_address (width n : Nat) :
    ':' ∉ (Text.alignRight width (Text.hex n) '0').toList := by
  intro member
  obtain ⟨digit, bound, same⟩ := Text.digitChar_of_mem_alignRight member
  have value := Text.digitChar_isDigit_or_isLower bound
  rw [← same] at value
  cases value

theorem toList_instructionLine (labels : Labels) (word : CodeWord) :
    (instructionLine labels word).toList =
      [' ', ' ', ' '] ++ ((Text.alignRight 5 (Text.hex word.address.toNat) '0').toList ++
        ':' :: ([' ', '\t'] ++ ((Text.alignRight 8 (Text.hex word.word.toNat) '0').toList ++
          '\t' :: (word.render labels).toList))) := by
  simp [instructionLine, String.toList_append]

/-- A line shows the address and the word that it is made from. The address ends at the first
colon, and the word has always the same width. -/
theorem eq_of_instructionLine_eq {labels others : Labels} {word other : CodeWord}
    (same : instructionLine labels word = instructionLine others other) : word = other := by
  have characters := congrArg String.toList same
  rw [toList_instructionLine, toList_instructionLine] at characters
  obtain ⟨addresses, behind⟩ := Text.append_mark_inj (colon_not_mem_address _ _)
    (colon_not_mem_address _ _) (List.append_cancel_left characters)
  have rest := List.append_cancel_left behind
  obtain ⟨words, -⟩ := List.append_inj rest
    ((length_address word.word).trans (length_address other.word).symm)
  have address := Text.hex_inj_of_alignRight (String.toList_inj.mp addresses)
  have value := Text.hex_inj_of_alignRight (String.toList_inj.mp words)
  calc
    word = ⟨word.address, word.word⟩ := rfl
    _ = ⟨other.address, other.word⟩ := by
      rw [BitVec.eq_of_toNat_eq address, BitVec.eq_of_toNat_eq value]

theorem instructionLine_ne_labelLine (labels : Labels) (word : CodeWord) (address : Address)
    (name : String) : instructionLine labels word ≠ labelLine address name :=
  ne_labelLine (startsWithDigit_instructionLine labels word) address name

theorem codeLines_append_inj {labels others : Labels} {word other : CodeWord}
    {rest tail : List String}
    (same : codeLines labels word ++ rest = codeLines others other ++ tail) :
    word = other ∧ labels.get? word.address = others.get? other.address ∧ rest = tail := by
  unfold codeLines at same
  cases named : labels.get? word.address with
  | none =>
    cases also : others.get? other.address with
    | none =>
      simp only [named, also, List.cons_append, List.nil_append, List.cons.injEq] at same
      exact ⟨eq_of_instructionLine_eq same.1, rfl, same.2⟩
    | some name =>
      simp only [named, also, List.cons_append, List.cons.injEq] at same
      exact absurd same.1 (instructionLine_ne_labelLine _ _ _ _)
  | some name =>
    cases also : others.get? other.address with
    | none =>
      simp only [named, also, List.cons_append, List.cons.injEq] at same
      exact absurd same.1.symm (instructionLine_ne_labelLine _ _ _ _)
    | some another =>
      simp only [named, also, List.cons_append, List.nil_append, List.cons.injEq] at same
      obtain ⟨label, line, rest⟩ := same
      exact ⟨eq_of_instructionLine_eq line, congrArg some (labelLine_inj.mp label).2, rest⟩

/-- Behind the code of a report nothing comes, or an empty line. -/
def EndsCode (tail : List String) : Prop :=
  tail.headD "" = ""

theorem not_endsCode (labels : Labels) (word : CodeWord) (rest : List String) :
    ¬EndsCode (codeLines labels word ++ rest) := by
  intro ends
  unfold EndsCode codeLines at ends
  cases named : labels.get? word.address with
  | none =>
    simp only [named, List.cons_append, List.headD_cons] at ends
    have characters := congrArg String.toList ends
    rw [toList_instructionLine] at characters
    cases characters
  | some name =>
    simp only [named, List.cons_append, List.headD_cons] at ends
    have digit := startsWithDigit_labelLine word.address name
    rw [ends] at digit
    simp [startsWithDigit] at digit

theorem textLines_append_inj {labels others : Labels} {code words : List CodeWord}
    {rest tail : List String} (ends : EndsCode rest) (alsoEnds : EndsCode tail)
    (same : textLines labels code ++ rest = textLines others words ++ tail) :
    code = words ∧ (∀ word ∈ code, labels.get? word.address = others.get? word.address) ∧
      rest = tail := by
  rw [textLines, textLines, List.cons_append, List.cons_append, List.cons.injEq] at same
  replace same := same.2
  induction code generalizing words with
  | nil =>
    cases words with
    | nil => exact ⟨rfl, by simp, same⟩
    | cons word words =>
      rw [List.flatMap_nil, List.nil_append, List.flatMap_cons, List.append_assoc] at same
      exact absurd (same ▸ ends) (not_endsCode _ _ _)
  | cons word code ih =>
    cases words with
    | nil =>
      rw [List.flatMap_nil, List.nil_append, List.flatMap_cons, List.append_assoc] at same
      exact absurd (same ▸ alsoEnds) (not_endsCode _ _ _)
    | cons other words =>
      rw [List.flatMap_cons, List.flatMap_cons, List.append_assoc, List.append_assoc] at same
      obtain ⟨rfl, name, later⟩ := codeLines_append_inj same
      obtain ⟨rfl, names, rest⟩ := ih later
      refine ⟨rfl, ?_, rest⟩
      intro listed member
      rcases List.mem_cons.mp member with rfl | member
      · exact name
      · exact names listed member

theorem endsCode_symbolLines (emit : Bool) (symbols : List Elf.Symbol) :
    EndsCode (if emit then symbolLines symbols else []) := by
  cases emit with
  | true => rfl
  | false => rfl

theorem symbolLines_inj {symbols others : List Elf.Symbol}
    (same : symbolLines symbols = symbolLines others) :
    symbols.length = others.length ∧
      ∀ number symbol other, symbols[number]? = some symbol → others[number]? = some other →
        symbolRow number symbol = symbolRow number other := by
  have rows : symbols.mapIdx symbolRow = others.mapIdx symbolRow := by
    simp only [symbolLines_eq, List.cons.injEq, true_and] at same
    exact same
  refine ⟨?_, ?_⟩
  · have count := congrArg List.length rows
    rw [List.length_mapIdx, List.length_mapIdx] at count
    exact count
  · intro number symbol other found alsoFound
    have row := congrArg (·[number]?) rows
    simp only [List.getElem?_mapIdx, found, alsoFound, Option.map_some, Option.some.injEq] at row
    exact row

theorem symbolLines_of_if_eq {emit shown : Bool} {symbols others : List Elf.Symbol}
    (same : (if emit then symbolLines symbols else []) =
      if shown then symbolLines others else []) :
    emit = shown ∧ (emit = true → symbolLines symbols = symbolLines others) := by
  cases emit with
  | false =>
    cases shown with
    | false => exact ⟨rfl, fun emitted => absurd emitted Bool.false_ne_true⟩
    | true => cases same
  | true =>
    cases shown with
    | false => cases same
    | true => exact ⟨rfl, fun _ => same⟩

/-- What two listed programs have in common: their code, the names of the addresses of the code,
and how their symbols are shown, if they are. -/
structure Alike (config other : Config) (symbols others : List Elf.Symbol)
    (code words : List CodeWord) : Prop where
  sequence : code = words
  names : ∀ word ∈ code, (Labels.ofProgram symbols code).get? word.address =
    (Labels.ofProgram others words).get? word.address
  emitSymtab : config.emitSymtab = other.emitSymtab
  rows : config.emitSymtab = true → symbols.length = others.length ∧
    ∀ number symbol another, symbols[number]? = some symbol → others[number]? = some another →
      symbolRow number symbol = symbolRow number another

theorem alike_of_lines_eq {config other : Config} {symbols others : List Elf.Symbol}
    {code words : List CodeWord}
    (same : (ofProgram config symbols code).lines = (ofProgram other others words).lines) :
    Alike config other symbols others code words := by
  rw [lines_eq_append, lines_eq_append] at same
  obtain ⟨code, names, rest⟩ := textLines_append_inj (endsCode_symbolLines _ _)
    (endsCode_symbolLines _ _) same
  obtain ⟨emit, shown⟩ := symbolLines_of_if_eq rest
  exact ⟨code, names, emit, fun emitted => symbolLines_inj (shown emitted)⟩

end Report

/-- A report tells the program that it lists: two files with the same report have the same code at
the same addresses, with the same labels, and the same symbols as far as these are shown. -/
theorem disassemble_lossless {first second : Bytes} {config other : Config}
    {report shown : Report} (listed : disassemble first config = .ok report)
    (alsoListed : disassemble second other = .ok shown) (same : report.lines = shown.lines) :
    ∃ object another symbols others code words,
      Elf.Object.parse first config.strict = .ok object ∧ object.symbols = .ok symbols ∧
      object.code = .ok code ∧
      Elf.Object.parse second other.strict = .ok another ∧ another.symbols = .ok others ∧
      another.code = .ok words ∧
      Report.Alike config other symbols others code words := by
  obtain ⟨object, symbols, code, parsed, read, decoded, rfl⟩ :=
    (disassemble_eq_ok_iff first config report).mp listed
  obtain ⟨another, others, words, alsoParsed, alsoRead, alsoDecoded, rfl⟩ :=
    (disassemble_eq_ok_iff second other shown).mp alsoListed
  exact ⟨object, another, symbols, others, code, words, parsed, read, decoded, alsoParsed,
    alsoRead, alsoDecoded, Report.alike_of_lines_eq same⟩

def raggedLoop : Elf.Layout :=
  { wrappedLoop with trailing := [0x13, 0x05], partialWord := by decide }

theorem raggedLoop_lossless :
    ∃ report shown, disassemble wrappedLoop.bytes .standard = .ok report ∧
      disassemble raggedLoop.bytes .standard = .ok shown ∧ report.lines = shown.lines ∧
      ∃ object another symbols others code words,
        Elf.Object.parse wrappedLoop.bytes Config.standard.strict = .ok object ∧
        object.symbols = .ok symbols ∧ object.code = .ok code ∧
        Elf.Object.parse raggedLoop.bytes Config.standard.strict = .ok another ∧
        another.symbols = .ok others ∧ another.code = .ok words ∧
        Report.Alike .standard .standard symbols others code words := by
  have strict : Config.standard.strict = true := rfl
  have listed := disassemble_layout wrappedLoop (by decide +kernel) strict
  have alsoListed := disassemble_layout raggedLoop (by decide +kernel) strict
  exact ⟨_, _, listed, alsoListed, rfl, disassemble_lossless listed alsoListed rfl⟩

end RiscvListing
