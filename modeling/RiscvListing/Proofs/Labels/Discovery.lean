import RiscvListing.Report.Basic

namespace RiscvListing

/-- The jumps whose target does not depend on a register, with the distance that they go. -/
inductive Instruction.Jumps : Instruction → Immediate → Prop where
  | jal (rd : Register) (offset : Immediate) : Jumps (.jal rd offset) offset
  | branch (op : BranchOp) (rs1 rs2 : Register) (offset : Immediate) :
    Jumps (.branch op rs1 rs2 offset) offset

theorem Instruction.target?_eq_some_iff (instruction : Instruction) (address target : Address) :
    instruction.target? address = some target ↔
      ∃ offset, instruction.Jumps offset ∧ address + offset = target := by
  constructor
  · intro goes
    cases instruction <;> cases goes
    · exact ⟨_, .jal _ _, rfl⟩
    · exact ⟨_, .branch _ _ _ _, rfl⟩
  · intro reached
    obtain ⟨offset, jump, same⟩ := reached
    subst target
    cases jump <;> rfl

def CodeWord.JumpsTo (word : CodeWord) (target : Address) : Prop :=
  ∃ offset, word.instruction.Jumps offset ∧ word.address + offset = target

theorem CodeWord.target?_eq_some_iff (word : CodeWord) (target : Address) :
    word.target? = some target ↔ word.JumpsTo target :=
  word.instruction.target?_eq_some_iff word.address target

def Referenced (symbols : List Elf.Symbol) (code : List CodeWord) (address : Address) : Prop :=
  (∃ symbol ∈ symbols, symbol.isFunction = true ∧ symbol.value = address) ∨
    ∃ word ∈ code, ∃ offset, word.instruction.Jumps offset ∧ word.address + offset = address

namespace Labels

theorem contains_eq_isSome (labels : Labels) (address : Address) :
    labels.contains address = (labels.get? address).isSome := by
  rw [get?, contains, Std.TreeMap.isSome_getElem?_eq_contains]

theorem get?_insertAll (labels : Labels) (named : List (Address × String)) (address : Address) :
    (labels.insertAll named).get? address =
      ((named.reverse.find? fun entry => entry.1 == address).map Prod.snd).or
        (labels.get? address) := by
  induction named generalizing labels with
  | nil => rfl
  | cons entry named ih =>
    have step : labels.insertAll (entry :: named) =
      (labels.insert entry.1 entry.2).insertAll named := rfl
    rw [step, ih, get?_insert, List.reverse_cons, List.find?_append]
    cases named.reverse.find? fun entry => entry.1 == address with
    | some later => rfl
    | none =>
      by_cases same : entry.1 = address
      · simp [same]
      · simp [same]

theorem synthetic_insertAll (labels : Labels) (named : List (Address × String)) :
    (labels.insertAll named).synthetic = labels.synthetic := by
  induction named generalizing labels with
  | nil => rfl
  | cons entry named ih => exact ih (labels.insert entry.1 entry.2)

def unnamed (labels : Labels) (targets : List Address) : List Address :=
  (targets.filter fun target => !labels.contains target).eraseDups

theorem unnamed_cons_of_contains {labels : Labels} {target : Address}
    (named : labels.contains target = true) (targets : List Address) :
    labels.unnamed (target :: targets) = labels.unnamed targets := by
  simp [unnamed, named]

theorem contains_ensure_of_not_contains {labels : Labels} {address : Address}
    (fresh : labels.contains address = false) (other : Address) :
    (labels.ensure address).contains other = (address == other || labels.contains other) := by
  rw [contains_eq_isSome, get?_ensure_of_not_contains fresh, contains_eq_isSome]
  by_cases same : address = other
  · simp [same]
  · simp [same]

theorem unnamed_cons_of_not_contains {labels : Labels} {target : Address}
    (fresh : labels.contains target = false) (targets : List Address) :
    labels.unnamed (target :: targets) = target :: (labels.ensure target).unnamed targets := by
  have kept : (fun other => !(labels.ensure target).contains other) =
      fun other => !(other == target) && !labels.contains other := by
    funext other
    rw [contains_ensure_of_not_contains fresh, Bool.not_or, Bool.beq_comm]
  rw [unnamed, unnamed, kept, List.filter_cons_of_pos (by simp [fresh]), List.eraseDups_cons,
    List.filter_filter]

theorem mem_unnamed_iff (labels : Labels) (targets : List Address) (address : Address) :
    address ∈ labels.unnamed targets ↔
      address ∈ targets ∧ labels.contains address = false := by
  simp [unnamed, List.mem_eraseDups]

/-- Some beginning of the list has the first one and not yet the second one. -/
def Precedes (targets : List Address) (first second : Address) : Prop :=
  ∃ front, front <+: targets ∧ first ∈ front ∧ second ∉ front

theorem Precedes.cons {target first second : Address} {targets : List Address}
    (precedes : Precedes targets first second) (later : second ≠ target) :
    Precedes (target :: targets) first second := by
  obtain ⟨front, shared, inside, outside⟩ := precedes
  refine ⟨target :: front, (List.prefix_cons_inj target).mpr shared, ?_, ?_⟩
  · exact List.mem_cons_of_mem target inside
  · rw [List.mem_cons, not_or]
    exact ⟨later, outside⟩

theorem pairwise_unnamed (labels : Labels) (targets : List Address) :
    (labels.unnamed targets).Pairwise (Precedes targets) := by
  induction targets generalizing labels with
  | nil => exact List.Pairwise.nil
  | cons target targets ih =>
    cases named : labels.contains target with
    | true =>
      rw [unnamed_cons_of_contains named]
      refine (ih labels).imp_of_mem fun _ member precedes => precedes.cons ?_
      rintro rfl
      rw [mem_unnamed_iff, named] at member
      cases member.2
    | false =>
      have apart : ∀ other ∈ (labels.ensure target).unnamed targets, other ≠ target := by
        rintro other member rfl
        rw [mem_unnamed_iff, contains_ensure_of_not_contains named, beq_self_eq_true] at member
        cases member.2
      rw [unnamed_cons_of_not_contains named, List.pairwise_cons]
      constructor
      · intro other member
        refine ⟨[target], ⟨targets, rfl⟩, List.mem_singleton_self target, ?_⟩
        rw [List.mem_singleton]
        exact apart other member
      · exact (ih (labels.ensure target)).imp_of_mem fun _ member precedes =>
          precedes.cons (apart _ member)

theorem nodup_unnamed (labels : Labels) (targets : List Address) :
    (labels.unnamed targets).Nodup := by
  refine (labels.pairwise_unnamed targets).imp ?_
  rintro first _ ⟨front, -, inside, outside⟩ rfl
  exact outside inside

theorem get?_foldl_ensure (labels : Labels) (targets : List Address) (address : Address) :
    (targets.foldl ensure labels).get? address =
      (labels.get? address).or
        (((labels.unnamed targets).idxOf? address).map fun index =>
          syntheticName (labels.synthetic + index)) := by
  induction targets generalizing labels with
  | nil => simp [unnamed]
  | cons target targets ih =>
    rw [List.foldl_cons]
    cases named : labels.contains target with
    | true => rw [ensure_of_contains named, ih, unnamed_cons_of_contains named]
    | false =>
      rw [ih, unnamed_cons_of_not_contains named, get?_ensure_of_not_contains named,
        synthetic_ensure_of_not_contains named, List.idxOf?_cons]
      by_cases same : target = address
      · subst address
        have missing : labels.get? target = none := by
          simpa [contains_eq_isSome] using named
        simp [missing]
      · simp only [same, if_false, beq_iff_eq, Option.map_map]
        congr 2
        funext index
        simp only [Function.comp_apply]
        congr 1
        omega

theorem synthetic_foldl_ensure (labels : Labels) (targets : List Address) :
    (targets.foldl ensure labels).synthetic =
      labels.synthetic + (labels.unnamed targets).length := by
  induction targets generalizing labels with
  | nil => simp [unnamed]
  | cons target targets ih =>
    rw [List.foldl_cons]
    cases named : labels.contains target with
    | true => rw [ensure_of_contains named, ih, unnamed_cons_of_contains named]
    | false =>
      rw [ih, unnamed_cons_of_not_contains named, synthetic_ensure_of_not_contains named,
        List.length_cons]
      omega

theorem foldl_ensure_of_contains {labels : Labels} {targets : List Address}
    (named : ∀ target ∈ targets, labels.contains target = true) :
    targets.foldl ensure labels = labels := by
  induction targets with
  | nil => rfl
  | cons target targets ih =>
    rw [List.foldl_cons, ensure_of_contains (named target (by simp))]
    exact ih fun other member => named other (List.mem_cons_of_mem _ member)

end Labels

namespace Elf.Symbol

/-- The last function in the table that has a value. -/
def functionAt? (symbols : List Symbol) (value : Word) : Option Symbol :=
  symbols.reverse.find? fun symbol => symbol.isFunction && symbol.value == value

theorem isSome_functionAt?_iff (symbols : List Symbol) (value : Word) :
    (functionAt? symbols value).isSome = true ↔
      ∃ symbol ∈ symbols, symbol.isFunction = true ∧ symbol.value = value := by
  simp [functionAt?]

theorem find?_functions (symbols : List Symbol) (value : Word) :
    ((functions symbols).reverse.find? fun entry => entry.1 == value).map Prod.snd =
      (functionAt? symbols value).map Symbol.name := by
  rw [functions, ← List.map_reverse, ← List.filter_reverse, List.find?_map, List.find?_filter,
    Option.map_map, functionAt?]
  have same : (fun symbol : Symbol => decide (symbol.isFunction = true ∧
      ((fun entry : Address × String => entry.1 == value) ∘ fun symbol : Symbol =>
        (symbol.value, symbol.name)) symbol = true)) =
      fun symbol => symbol.isFunction && symbol.value == value := by
    funext symbol
    by_cases equal : symbol.value = value <;> simp [equal]
  rw [same]
  rfl

end Elf.Symbol

namespace Labels

open Elf (Symbol)

theorem get?_functions (symbols : List Symbol) (address : Address) :
    (empty.insertAll (Symbol.functions symbols)).get? address =
      (Symbol.functionAt? symbols address).map Symbol.name := by
  rw [get?_insertAll, Symbol.find?_functions, get?_empty, Option.or_none]

/-- The jump targets that are not functions, each one once, in the order of the jumps. -/
def syntheticTargets (symbols : List Symbol) (code : List CodeWord) : List Address :=
  ((code.filterMap CodeWord.target?).filter fun target =>
    (Symbol.functionAt? symbols target).isNone).eraseDups

theorem unnamed_functions (symbols : List Symbol) (code : List CodeWord) :
    (empty.insertAll (Symbol.functions symbols)).unnamed (code.filterMap CodeWord.target?) =
      syntheticTargets symbols code := by
  have plain : (fun target => !(empty.insertAll (Symbol.functions symbols)).contains target) =
      fun target => (Symbol.functionAt? symbols target).isNone := by
    funext target
    rw [contains_eq_isSome, get?_functions, Option.isSome_map, Option.not_isSome]
  rw [unnamed, plain, syntheticTargets]

theorem synthetic_functions (symbols : List Symbol) :
    (empty.insertAll (Symbol.functions symbols)).synthetic = 0 :=
  synthetic_insertAll empty _

theorem get?_ofProgram (symbols : List Symbol) (code : List CodeWord) (address : Address) :
    (ofProgram symbols code).get? address =
      ((Symbol.functionAt? symbols address).map Symbol.name).or
        (((syntheticTargets symbols code).idxOf? address).map syntheticName) := by
  rw [ofProgram, discover, get?_foldl_ensure, get?_functions, unnamed_functions]
  congr 2
  funext index
  rw [synthetic_functions, Nat.zero_add]

theorem synthetic_ofProgram (symbols : List Symbol) (code : List CodeWord) :
    (ofProgram symbols code).synthetic = (syntheticTargets symbols code).length := by
  rw [ofProgram, discover, synthetic_foldl_ensure, unnamed_functions, synthetic_functions,
    Nat.zero_add]

theorem mem_syntheticTargets_iff (symbols : List Symbol) (code : List CodeWord)
    (address : Address) :
    address ∈ syntheticTargets symbols code ↔
      (∃ word ∈ code, word.target? = some address) ∧
        Symbol.functionAt? symbols address = none := by
  simp [syntheticTargets, List.mem_eraseDups]

theorem nodup_syntheticTargets (symbols : List Symbol) (code : List CodeWord) :
    (syntheticTargets symbols code).Nodup := by
  rw [← unnamed_functions]
  exact nodup_unnamed _ _

theorem contains_ofProgram_iff (symbols : List Symbol) (code : List CodeWord)
    (address : Address) :
    (ofProgram symbols code).contains address = true ↔
      (∃ symbol ∈ symbols, symbol.isFunction = true ∧ symbol.value = address) ∨
        ∃ word ∈ code, word.target? = some address := by
  rw [contains_eq_isSome, get?_ofProgram, ← Symbol.isSome_functionAt?_iff]
  cases function : Symbol.functionAt? symbols address with
  | some symbol => simp
  | none =>
    simp [List.isSome_idxOf?, mem_syntheticTargets_iff, function]

theorem contains_ofProgram_iff_referenced (symbols : List Symbol) (code : List CodeWord)
    (address : Address) :
    (ofProgram symbols code).contains address = true ↔ Referenced symbols code address := by
  simp only [contains_ofProgram_iff, CodeWord.target?_eq_some_iff]
  rfl

/-- The targets of the jumps that are not functions, in the order in which the code first jumps to
them. -/
structure FirstTargets (symbols : List Symbol) (code : List CodeWord) (targets : List Address) :
    Prop where
  distinct : targets.Nodup
  mem_iff : ∀ address, address ∈ targets ↔
    (∃ word ∈ code, word.JumpsTo address) ∧
      ∀ symbol ∈ symbols, symbol.isFunction = true → symbol.value ≠ address
  ordered : targets.Pairwise fun first second =>
    ∃ front, front <+: code ∧ (∃ word ∈ front, word.JumpsTo first) ∧
      ∀ word ∈ front, ¬word.JumpsTo second

theorem firstTargets_syntheticTargets (symbols : List Symbol) (code : List CodeWord) :
    FirstTargets symbols code (syntheticTargets symbols code) where
  distinct := nodup_syntheticTargets symbols code
  mem_iff := by
    intro address
    have plain : Symbol.functionAt? symbols address = none ↔
        ∀ symbol ∈ symbols, symbol.isFunction = true → symbol.value ≠ address := by
      rw [← Option.not_isSome_iff_eq_none, Symbol.isSome_functionAt?_iff]
      simp
    simp only [mem_syntheticTargets_iff, plain, CodeWord.target?_eq_some_iff]
  ordered := by
    rw [← unnamed_functions]
    refine (pairwise_unnamed _ _).imp ?_
    rintro first second ⟨targets, shared, inside, outside⟩
    obtain ⟨front, before, rfl⟩ := List.prefix_filterMap_iff.mp shared
    simp only [List.mem_filterMap, CodeWord.target?_eq_some_iff] at inside outside
    exact ⟨front, before, inside, fun word member jumps => outside ⟨word, member, jumps⟩⟩

/-- Every named address is a function or a jump target. A function keeps the name of its last
symbol, the other targets are numbered in the order of the jumps, and naming all targets once more
changes nothing. -/
theorem ofProgram_names (symbols : List Symbol) (code : List CodeWord) :
    (∀ address, (ofProgram symbols code).contains address = true ↔
      Referenced symbols code address) ∧
    (∀ symbol ∈ symbols, symbol.isFunction = true →
      ∃ last, Symbol.functionAt? symbols symbol.value = some last ∧
        (ofProgram symbols code).get? symbol.value = some last.name) ∧
    FirstTargets symbols code (syntheticTargets symbols code) ∧
    (∀ (index : Nat) (inside : index < (syntheticTargets symbols code).length),
      (ofProgram symbols code).get? (syntheticTargets symbols code)[index] =
        some ("L" ++ Text.decimal index)) ∧
    (ofProgram symbols code).synthetic = (syntheticTargets symbols code).length ∧
    (ofProgram symbols code).discover code = ofProgram symbols code := by
  refine ⟨contains_ofProgram_iff_referenced symbols code, ?_,
    firstTargets_syntheticTargets symbols code, ?_, synthetic_ofProgram symbols code, ?_⟩
  · intro symbol member function
    have found := (Symbol.isSome_functionAt?_iff symbols symbol.value).mpr
      ⟨symbol, member, function, rfl⟩
    obtain ⟨last, found⟩ := Option.isSome_iff_exists.mp found
    exact ⟨last, found, by rw [get?_ofProgram, found]; rfl⟩
  · intro index inside
    have member := List.getElem_mem inside
    have plain := ((mem_syntheticTargets_iff symbols code _).mp member).2
    have first : (syntheticTargets symbols code).idxOf?
        (syntheticTargets symbols code)[index] = some index :=
      List.idxOf?_eq_some_iff.mpr ⟨inside, rfl, fun earlier before =>
        List.pairwise_iff_getElem.mp (nodup_syntheticTargets symbols code) earlier index
          (Nat.lt_trans before inside) inside before⟩
    rw [get?_ofProgram, plain, first]
    rfl
  · apply foldl_ensure_of_contains
    intro target member
    obtain ⟨word, inCode, goes⟩ := List.mem_filterMap.mp member
    exact (contains_ofProgram_iff symbols code target).mpr (.inr ⟨word, inCode, goes⟩)

end Labels

end RiscvListing
