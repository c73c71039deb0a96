import RiscvListing.Proofs.Labels.Run

namespace RiscvListing.Labels

open Elf (Symbol)

/-- The address has a label whose name was made up, since there is no function at it. -/
structure IsSynthetic (symbols : List Symbol) (code : List CodeWord) (address : Address) :
    Prop where
  labelled : (ofProgram symbols code).contains address = true
  plain : Symbol.functionAt? symbols address = none

section

variable {symbols : List Symbol} {code : List CodeWord}

theorem IsSynthetic.mem {address : Address} (synthetic : IsSynthetic symbols code address) :
    address ∈ syntheticTargets symbols code := by
  have labelled := synthetic.labelled
  rw [contains_eq_isSome, get?_ofProgram, synthetic.plain, Option.map_none, Option.none_or,
    Option.isSome_map, List.isSome_idxOf?] at labelled
  exact labelled

theorem get?_of_functionAt? {address : Address} {last : Symbol}
    (found : Symbol.functionAt? symbols address = some last) :
    (ofProgram symbols code).get? address = some last.name := by
  rw [get?_ofProgram, found]
  rfl

theorem IsSynthetic.get? {address : Address} (synthetic : IsSynthetic symbols code address) :
    ∃ number, (syntheticTargets symbols code)[number]? = some address ∧
      (ofProgram symbols code).get? address = some (syntheticName number) := by
  have some := List.isSome_idxOf?.mpr synthetic.mem
  obtain ⟨number, first⟩ := Option.isSome_iff_exists.mp some
  obtain ⟨inside, place, -⟩ := List.idxOf?_eq_some_iff.mp first
  refine ⟨number, ?_, ?_⟩
  · rw [List.getElem?_eq_getElem inside, place]
  · rw [get?_ofProgram, synthetic.plain, first]
    rfl

theorem IsSynthetic.number_lt {address : Address} (synthetic : IsSynthetic symbols code address)
    {number : Nat} (named : (ofProgram symbols code).get? address = some (syntheticName number)) :
    number < (ofProgram symbols code).synthetic := by
  obtain ⟨place, target, name⟩ := synthetic.get?
  have same : place = number := syntheticName_inj.mp (Option.some.inj (name.symm.trans named))
  obtain ⟨inside, -⟩ := List.getElem?_eq_some_iff.mp target
  rw [synthetic_ofProgram, ← same]
  exact inside

theorem IsSynthetic.eq_of_get?_eq {first second : Address}
    (synthetic : IsSynthetic symbols code first) (other : IsSynthetic symbols code second)
    (same : (ofProgram symbols code).get? first = (ofProgram symbols code).get? second) :
    first = second := by
  obtain ⟨number, target, name⟩ := synthetic.get?
  obtain ⟨another, alsoTarget, alsoName⟩ := other.get?
  rw [name, alsoName, Option.some.injEq, syntheticName_inj] at same
  rw [same, alsoTarget] at target
  exact (Option.some.inj target).symm

theorem IsSynthetic.get?_eq_iff {address other : Address} {name : String}
    (synthetic : IsSynthetic symbols code address)
    (named : (ofProgram symbols code).get? address = some name) (apart : other ≠ address) :
    (ofProgram symbols code).get? other = some name ↔
      ∃ last, Symbol.functionAt? symbols other = some last ∧ last.name = name := by
  constructor
  · intro shared
    cases found : Symbol.functionAt? symbols other with
    | some last =>
      rw [get?_of_functionAt? found] at shared
      exact ⟨last, rfl, Option.some.inj shared⟩
    | none =>
      have labelled : (ofProgram symbols code).contains other = true := by
        rw [contains_eq_isSome, shared]
        rfl
      have alsoSynthetic : IsSynthetic symbols code other := ⟨labelled, found⟩
      have same := alsoSynthetic.eq_of_get?_eq synthetic (shared.trans named.symm)
      exact absurd same apart
  · rintro ⟨last, found, rfl⟩
    exact get?_of_functionAt? found

end

/-- A made up name stands for one address, unless a function happens to have it. -/
theorem ofProgram_ambiguity (symbols : List Symbol) (code : List CodeWord) :
    (∀ address, IsSynthetic symbols code address →
      ∃ number < (ofProgram symbols code).synthetic,
        (ofProgram symbols code).get? address = some ("L" ++ Text.decimal number)) ∧
    (∀ first second, IsSynthetic symbols code first → IsSynthetic symbols code second →
      first ≠ second →
        (ofProgram symbols code).get? first ≠ (ofProgram symbols code).get? second) ∧
    (∀ address number, IsSynthetic symbols code address →
      (ofProgram symbols code).get? address = some ("L" ++ Text.decimal number) →
      ∀ other, other ≠ address →
        ((ofProgram symbols code).get? other = (ofProgram symbols code).get? address ↔
          ∃ last, Symbol.functionAt? symbols other = some last ∧
            last.name = "L" ++ Text.decimal number)) ∧
    ((∀ symbol ∈ symbols, symbol.isFunction = true →
        ∀ number < (ofProgram symbols code).synthetic, symbol.name ≠ "L" ++ Text.decimal number) →
      ∀ address, IsSynthetic symbols code address → ∀ other,
        (ofProgram symbols code).get? other = (ofProgram symbols code).get? address ↔
          other = address) := by
  refine ⟨?_, ?_, ?_, ?_⟩
  · intro address synthetic
    obtain ⟨number, -, named⟩ := synthetic.get?
    exact ⟨number, synthetic.number_lt named, named⟩
  · intro first second synthetic other apart same
    exact apart (synthetic.eq_of_get?_eq other same)
  · intro address number synthetic named other apart
    rw [named]
    exact synthetic.get?_eq_iff named apart
  · intro free address synthetic other
    constructor
    · intro shared
      obtain ⟨number, -, named⟩ := synthetic.get?
      have bound := synthetic.number_lt named
      rw [named] at shared
      by_cases same : other = address
      · exact same
      · obtain ⟨last, found, name⟩ := (synthetic.get?_eq_iff named same).mp shared
        have member := List.mem_of_find?_eq_some found
        have function := List.find?_some found
        rw [Bool.and_eq_true] at function
        exact absurd name (free last (List.mem_reverse.mp member) function.1 number bound)
    · intro equal
      rw [equal]

def namesake : List Symbol :=
  [⟨"L0", 8, 0, 0x12, 0, 1⟩]

def namesakeCode : List CodeWord :=
  [⟨0, 0x0040006f⟩]

theorem namesake_ambiguity :
    IsSynthetic namesake namesakeCode 4 ∧
      (ofProgram namesake namesakeCode).get? 8 = (ofProgram namesake namesakeCode).get? 4 := by
  have synthetic : IsSynthetic namesake namesakeCode 4 := by
    refine ⟨?_, by decide⟩
    rw [contains_ofProgram_iff]
    exact .inr ⟨_, List.mem_cons_self, by decide⟩
  have named : (ofProgram namesake namesakeCode).get? 4 = some ("L" ++ Text.decimal 0) := by
    rw [get?_ofProgram]
    decide
  obtain ⟨-, -, shared, -⟩ := ofProgram_ambiguity namesake namesakeCode
  exact ⟨synthetic, (shared 4 0 synthetic named 8 (by decide)).mpr ⟨_, rfl, rfl⟩⟩

end RiscvListing.Labels
