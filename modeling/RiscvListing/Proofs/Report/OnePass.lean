import RiscvListing.Proofs.Report.CrossReference

namespace RiscvListing

namespace Labels

theorem contains_eq_false_iff (labels : Labels) (address : Address) :
    labels.contains address = false ↔ labels.get? address = none := by
  rw [contains_eq_isSome, Option.isSome_eq_false_iff, Option.isNone_iff_eq_none]

theorem discover_append (labels : Labels) (code more : List CodeWord) :
    labels.discover (code ++ more) = (labels.discover code).discover more := by
  rw [discover, discover, discover, List.filterMap_append, List.foldl_append]

theorem ofProgram_append (symbols : List Elf.Symbol) (code more : List CodeWord) :
    ofProgram symbols (code ++ more) = (ofProgram symbols code).discover more :=
  discover_append _ code more

theorem get?_discover_of_contains {labels : Labels} {address : Address}
    (known : labels.contains address = true) (code : List CodeWord) :
    (labels.discover code).get? address = labels.get? address := by
  rw [contains_eq_isSome] at known
  obtain ⟨name, named⟩ := Option.isSome_iff_exists.mp known
  rw [discover, get?_foldl_ensure, named, Option.some_or]

theorem contains_discover_iff (labels : Labels) (code : List CodeWord) (address : Address) :
    (labels.discover code).contains address = true ↔
      labels.contains address = true ∨ ∃ word ∈ code, word.target? = some address := by
  rw [contains_eq_isSome, discover, get?_foldl_ensure, Option.isSome_or, Option.isSome_map,
    Bool.or_eq_true, ← contains_eq_isSome, List.isSome_idxOf?, mem_unnamed_iff, List.mem_filterMap]
  cases labels.contains address with
  | true => simp
  | false => simp

end Labels

namespace Report

theorem instructionLine_congr {first second : Labels} {word : CodeWord}
    (same : ∀ target, word.target? = some target → first.get? target = second.get? target) :
    instructionLine first word = instructionLine second word := by
  have suffixes : ∀ target, word.target? = some target →
      Instruction.targetSuffix first target = Instruction.targetSuffix second target := by
    intro target goes
    rw [Instruction.targetSuffix, Instruction.targetSuffix, same target goes]
  have rendered : word.render first = word.render second := by
    unfold CodeWord.render Instruction.render
    unfold CodeWord.target? at suffixes
    cases read : word.instruction with
    | jal rd offset =>
      rw [read] at suffixes
      simp only [Instruction.operands, suffixes _ rfl]
    | branch op rs1 rs2 offset =>
      rw [read] at suffixes
      simp only [Instruction.operands, suffixes _ rfl]
    | _ => rfl
  rw [instructionLine, instructionLine, rendered]

namespace Block

/-- The same block again, which can have got a label. -/
structure Grows (early late : Block) : Prop where
  line : late.line = early.line
  label : early.label = none ∨ late.label = early.label

theorem Grows.sublist {early late : Block} (grows : early.Grows late) :
    early.lines.Sublist late.lines := by
  rw [lines, lines, grows.line]
  rcases grows.label with none | same
  · rw [none]
    exact List.sublist_append_right _ _
  · simp only [same, List.Sublist.refl]

theorem grows_discover {labels : Labels} {word : CodeWord}
    (known : ∀ target, word.target? = some target → labels.contains target = true)
    (more : List CodeWord) :
    (ofWord labels word).Grows (ofWord (labels.discover more) word) where
  line := by
    apply instructionLine_congr
    intro target goes
    exact Labels.get?_discover_of_contains (known target goes) more
  label := by
    cases labelled : labels.contains word.address with
    | true =>
      rw [ofWord, ofWord, Labels.get?_discover_of_contains labelled]
      exact .inr rfl
    | false =>
      rw [ofWord, (labels.contains_eq_false_iff _).mp labelled]
      exact .inl rfl

theorem label_discover_ne_iff (labels : Labels) (word : CodeWord) (more : List CodeWord) :
    (ofWord (labels.discover more) word).label ≠ (ofWord labels word).label ↔
      labels.contains word.address = false ∧ ∃ later ∈ more, later.target? = some word.address := by
  cases labelled : labels.contains word.address with
  | true => simp [ofWord, Labels.get?_discover_of_contains labelled]
  | false =>
    have reached := labels.contains_discover_iff more word.address
    rw [Labels.contains_eq_isSome, labelled] at reached
    rw [ofWord, ofWord, (labels.contains_eq_false_iff _).mp labelled, Option.map_none,
      Option.ne_none_iff_isSome, Option.isSome_map, reached]
    simp

end Block

/-- A listing that is made in a single pass. The target of a word is named when the word is
reached, and the word is shown with the names that there are then. -/
def onePassFrom (labels : Labels) : List CodeWord → List Block × Labels
  | [] => ([], labels)
  | word :: code =>
    let known :=
      match word.target? with
      | some target => labels.ensure target
      | none => labels
    let rest := onePassFrom known code
    (Block.ofWord known word :: rest.1, rest.2)

def onePass (symbols : List Elf.Symbol) (code : List CodeWord) : List Block × Labels :=
  onePassFrom (Labels.empty.insertAll (Elf.Symbol.functions symbols)) code

/-- The blocks of a listing that is made when all targets are named. -/
def twoPass (symbols : List Elf.Symbol) (code : List CodeWord) : List Block :=
  code.map (Block.ofWord (Labels.ofProgram symbols code))

theorem onePassFrom_cons (labels : Labels) (word : CodeWord) (code : List CodeWord) :
    onePassFrom labels (word :: code) =
      (Block.ofWord (labels.discover [word]) word ::
          (onePassFrom (labels.discover [word]) code).1,
        (onePassFrom (labels.discover [word]) code).2) := by
  rw [onePassFrom, Labels.discover]
  cases goes : word.target? with
  | none => simp [goes]
  | some target => simp [goes]

theorem onePassFrom_labels (labels : Labels) (code : List CodeWord) :
    (onePassFrom labels code).2 = labels.discover code := by
  induction code generalizing labels with
  | nil => rfl
  | cons word code ih => rw [onePassFrom_cons, ih, ← Labels.discover_append, List.singleton_append]

theorem length_onePassFrom (labels : Labels) (code : List CodeWord) :
    (onePassFrom labels code).1.length = code.length := by
  induction code generalizing labels with
  | nil => rfl
  | cons word code ih => rw [onePassFrom_cons, List.length_cons, ih, List.length_cons]

theorem onePassFrom_append (labels : Labels) (code more : List CodeWord) :
    (onePassFrom labels (code ++ more)).1 =
      (onePassFrom labels code).1 ++ (onePassFrom (labels.discover code) more).1 := by
  induction code generalizing labels with
  | nil => rfl
  | cons word code ih =>
    rw [List.cons_append, onePassFrom_cons, onePassFrom_cons, ih, List.cons_append,
      ← Labels.discover_append, List.singleton_append]

theorem getElem?_onePassFrom (labels : Labels) (code : List CodeWord) (place : Nat) :
    (onePassFrom labels code).1[place]? =
      code[place]?.map (Block.ofWord (labels.discover (code.take (place + 1)))) := by
  induction code generalizing labels place with
  | nil => rfl
  | cons word code ih =>
    rw [onePassFrom_cons]
    cases place with
    | zero => rfl
    | succ place =>
      rw [List.getElem?_cons_succ, List.getElem?_cons_succ, ih, ← Labels.discover_append,
        List.singleton_append, List.take_succ_cons]

theorem getElem?_onePass (symbols : List Elf.Symbol) (code : List CodeWord) (place : Nat) :
    (onePass symbols code).1[place]? =
      code[place]?.map (Block.ofWord (Labels.ofProgram symbols (code.take (place + 1)))) :=
  getElem?_onePassFrom _ code place

/-- The address of a word is reached from behind it alone, and is not a function. -/
structure ReachedLater (symbols : List Elf.Symbol) (code : List CodeWord) (place : Nat)
    (word : CodeWord) : Prop where
  plain : ∀ symbol ∈ symbols, symbol.isFunction = true → symbol.value ≠ word.address
  later : ∃ other ∈ code.drop (place + 1), other.target? = some word.address
  unreached : ∀ other ∈ code.take (place + 1), other.target? ≠ some word.address

theorem contains_target {symbols : List Elf.Symbol} {code : List CodeWord} {word : CodeWord}
    (member : word ∈ code) {target : Address} (goes : word.target? = some target) :
    (Labels.ofProgram symbols code).contains target = true :=
  (Labels.contains_ofProgram_iff symbols code target).mpr (.inr ⟨word, member, goes⟩)

theorem reachedLater_iff (symbols : List Elf.Symbol) (code : List CodeWord) (place : Nat)
    (word : CodeWord) :
    ReachedLater symbols code place word ↔
      (Labels.ofProgram symbols (code.take (place + 1))).contains word.address = false ∧
        ∃ other ∈ code.drop (place + 1), other.target? = some word.address := by
  rw [← Bool.not_eq_true, Labels.contains_ofProgram_iff]
  constructor
  · rintro ⟨plain, later, unreached⟩
    refine ⟨?_, later⟩
    rintro (⟨symbol, listed, function, same⟩ | ⟨other, inside, goes⟩)
    · exact plain symbol listed function same
    · exact unreached other inside goes
  · rintro ⟨unnamed, later⟩
    refine ⟨?_, later, ?_⟩
    · intro symbol listed function same
      exact unnamed (.inl ⟨symbol, listed, function, same⟩)
    · intro other inside goes
      exact unnamed (.inr ⟨other, inside, goes⟩)

/-- Two listings of a program that differ in labels alone. The second one has them before more
words, which are those that `gained` tells. -/
def LabelsAdded (code : List CodeWord) (early late : List Block)
    (gained : Nat → CodeWord → Prop) : Prop :=
  ∀ place word, code[place]? = some word →
    ∃ before after : Block, early[place]? = some before ∧ late[place]? = some after ∧
      before.Grows after ∧ (after.label ≠ before.label ↔ gained place word)

theorem labelsAdded_onePass (symbols : List Elf.Symbol) (code : List CodeWord) :
    LabelsAdded code (onePass symbols code).1 (twoPass symbols code)
      (ReachedLater symbols code) := by
  intro place word found
  have split : Labels.ofProgram symbols code =
      (Labels.ofProgram symbols (code.take (place + 1))).discover (code.drop (place + 1)) := by
    rw [← Labels.ofProgram_append, List.take_append_drop]
  have passed : word ∈ code.take (place + 1) := by
    apply List.mem_of_getElem?
    rw [List.getElem?_take_of_lt (Nat.lt_succ_self place), found]
  refine ⟨_, _, by rw [getElem?_onePass, found]; rfl,
    by rw [twoPass, List.getElem?_map, found]; rfl, ?_, ?_⟩
  · rw [split]
    exact Block.grows_discover (fun _ => contains_target passed) _
  · rw [split, Block.label_discover_ne_iff, reachedLater_iff]

theorem labelsAdded_append (symbols : List Elf.Symbol) (code more : List CodeWord) :
    LabelsAdded code (twoPass symbols code) (twoPass symbols (code ++ more)) fun _ word =>
      (Labels.ofProgram symbols code).contains word.address = false ∧
        ∃ other ∈ more, other.target? = some word.address := by
  intro place word found
  have inside : (code ++ more)[place]? = some word := by
    rw [List.getElem?_append_left (List.getElem?_eq_some_iff.mp found).1, found]
  refine ⟨_, _, by rw [twoPass, List.getElem?_map, found]; rfl,
    by rw [twoPass, List.getElem?_map, inside]; rfl, ?_, ?_⟩
  · rw [Labels.ofProgram_append]
    exact Block.grows_discover (fun _ => contains_target (List.mem_of_getElem? found)) more
  · rw [Labels.ofProgram_append, Block.label_discover_ne_iff]

theorem LabelsAdded.sublist {code : List CodeWord} {early late : List Block}
    {gained : Nat → CodeWord → Prop} (added : LabelsAdded code early late gained)
    (complete : early.length = code.length) :
    (early.flatMap Block.lines).Sublist (late.flatMap Block.lines) := by
  induction early generalizing code late gained with
  | nil => exact List.nil_sublist _
  | cons first early ih =>
    cases code with
    | nil => cases complete
    | cons word code =>
      obtain ⟨before, after, found, alsoFound, grows, -⟩ := added 0 word rfl
      cases found
      cases late with
      | nil => cases alsoFound
      | cons second late =>
        cases alsoFound
        have rest : LabelsAdded code early late fun place => gained (place + 1) :=
          fun place => added (place + 1)
        rw [List.flatMap_cons, List.flatMap_cons]
        exact grows.sublist.append (ih rest (Nat.succ.inj complete))

/-- Naming all targets first gives the listing of a single pass, with a label more before each word
that is only reached from behind it. Words that are added to a program change nothing about the
lines before them but for such labels. -/
theorem twoPass_refines_onePass (symbols : List Elf.Symbol) (code : List CodeWord) :
    (onePass symbols code).2 = Labels.ofProgram symbols code ∧
    textLines (Labels.ofProgram symbols code) code =
      ".text" :: (twoPass symbols code).flatMap Block.lines ∧
    (onePass symbols code).1.length = code.length ∧
    (twoPass symbols code).length = code.length ∧
    LabelsAdded code (onePass symbols code).1 (twoPass symbols code)
      (ReachedLater symbols code) ∧
    (".text" :: (onePass symbols code).1.flatMap Block.lines).Sublist
      (textLines (Labels.ofProgram symbols code) code) ∧
    ∀ more,
      (onePass symbols code).1 <+: (onePass symbols (code ++ more)).1 ∧
      (textLines (Labels.ofProgram symbols code) code).Sublist
        (textLines (Labels.ofProgram symbols (code ++ more)) (code ++ more)) ∧
      LabelsAdded code (twoPass symbols code) (twoPass symbols (code ++ more)) fun _ word =>
        (Labels.ofProgram symbols code).contains word.address = false ∧
          ∃ other ∈ more, other.target? = some word.address := by
  have added := labelsAdded_onePass symbols code
  refine ⟨onePassFrom_labels _ code, textLines_eq _ code, length_onePassFrom _ code,
    List.length_map _, added, ?_, ?_⟩
  · rw [textLines_eq]
    exact (added.sublist (length_onePassFrom _ code)).cons_cons _
  · intro more
    have grown := labelsAdded_append symbols code more
    refine ⟨?_, ?_, grown⟩
    · rw [onePass, onePass, onePassFrom_append]
      exact List.prefix_append _ _
    · rw [textLines_eq, textLines_eq]
      exact (grown.sublist (List.length_map _)).cons_cons _

end Report

end RiscvListing
