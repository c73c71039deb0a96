import RiscvListing.Elf.Object

namespace RiscvListing.Elf

instance decidableEqExcept {α : Type} [DecidableEq α] : DecidableEq (Except Error α)
  | .ok first, .ok second => decidable_of_iff (first = second) (by rw [Except.ok.injEq])
  | .error first, .error second => decidable_of_iff (first = second) (by rw [Except.error.injEq])
  | .ok _, .error _ => isFalse (by rintro ⟨⟩)
  | .error _, .ok _ => isFalse (by rintro ⟨⟩)

theorem bind_eq_ok_iff {ε α β : Type} (first : Except ε α) (next : α → Except ε β) (result : β) :
    first >>= next = .ok result ↔ ∃ value, first = .ok value ∧ next value = .ok result := by
  cases first with
  | error error => simp [Bind.bind, Except.bind]
  | ok value => simp [Bind.bind, Except.bind]

namespace Scan

theorem result_eq_ok_iff {α : Type} (scan : Scan α) (values : List α) :
    scan.result = .ok values ↔ scan.failure = none ∧ scan.values = values := by
  unfold result
  cases scan.failure <;> simp

theorem continueFrom_result_succ {α : Type} (read : Nat → Except Error α) (index count : Nat)
    (done : List α) :
    (continueFrom read index (count + 1) done).result =
      read index >>= fun value => (continueFrom read (index + 1) count (value :: done)).result := by
  cases found : read index with
  | ok value =>
    rw [continueFrom_of_ok found]
    rfl
  | error error =>
    rw [continueFrom_of_error found]
    rfl

theorem continueFrom_result_eq_ok_iff {α : Type} (read : Nat → Except Error α)
    (index count : Nat) (done values : List α) :
    (continueFrom read index count done).result = .ok values ↔
      ∃ rest, values = done.reverse ++ rest ∧ rest.length = count ∧
        ∀ (place : Nat) (inside : place < rest.length),
          read (index + place) = .ok rest[place] := by
  induction count generalizing index done with
  | zero =>
    rw [result_eq_ok_iff, continueFrom]
    constructor
    · intro finished
      exact ⟨[], by simp [← finished.2]⟩
    · intro all
      obtain ⟨rest, split, empty, -⟩ := all
      simp [split, List.length_eq_zero_iff.mp empty]
  | succ count ih =>
    cases good : read index with
    | error error =>
      rw [continueFrom_of_error good, result_eq_ok_iff]
      constructor
      · intro finished
        cases finished.1
      · intro all
        obtain ⟨rest, -, length, reads⟩ := all
        have first := reads 0 (by omega)
        rw [Nat.add_zero, good] at first
        cases first
    | ok value =>
      rw [continueFrom_of_ok good, ih]
      constructor
      · intro later
        obtain ⟨rest, split, length, reads⟩ := later
        refine ⟨value :: rest, by simp [split], by simp [length], ?_⟩
        intro place inside
        cases place with
        | zero => exact good
        | succ place =>
          have later := reads place (by simpa using inside)
          rw [Nat.add_assoc, Nat.add_comm 1] at later
          exact later
      · intro all
        obtain ⟨rest, split, length, reads⟩ := all
        cases rest with
        | nil => cases length
        | cons head rest =>
          have first := reads 0 (by simp)
          rw [Nat.add_zero, good] at first
          cases first
          refine ⟨rest, by simp [split], by simpa using length, ?_⟩
          intro place inside
          have later := reads (place + 1) (by simpa using inside)
          rw [Nat.add_assoc, Nat.add_comm 1]
          exact later

theorem items_result_eq_ok_iff {α : Type} (read : Nat → Except Error α) (count : Nat)
    (values : List α) :
    (items read count).result = .ok values ↔
      values.length = count ∧
        ∀ (index : Nat) (inside : index < values.length), read index = .ok values[index] := by
  rw [items, continueFrom_result_eq_ok_iff]
  constructor
  · intro all
    obtain ⟨rest, split, length, reads⟩ := all
    rw [List.reverse_nil, List.nil_append] at split
    subst values
    refine ⟨length, ?_⟩
    intro index inside
    have read := reads index inside
    rw [Nat.zero_add] at read
    exact read
  · intro all
    obtain ⟨length, reads⟩ := all
    refine ⟨values, rfl, length, ?_⟩
    intro index inside
    rw [Nat.zero_add]
    exact reads index inside

theorem continueFrom_result_eq_error_iff {α : Type} (read : Nat → Except Error α)
    (index count : Nat) (done : List α) (error : Error) :
    (continueFrom read index count done).result = .error error ↔
      ∃ place, place < count ∧ read (index + place) = .error error ∧
        ∀ earlier, earlier < place → ∃ value, read (index + earlier) = .ok value := by
  induction count generalizing index done with
  | zero =>
    rw [continueFrom]
    constructor
    · intro failed
      cases failed
    · intro failed
      obtain ⟨place, none, -⟩ := failed
      omega
  | succ count ih =>
    cases first : read index with
    | error reason =>
      rw [continueFrom_of_error first]
      constructor
      · intro failed
        cases failed
        exact ⟨0, Nat.succ_pos count, first, by omega⟩
      · intro failed
        obtain ⟨place, -, bad, before⟩ := failed
        cases place with
        | zero =>
          rw [Nat.add_zero, first] at bad
          cases bad
          rfl
        | succ place =>
          obtain ⟨value, good⟩ := before 0 (Nat.succ_pos place)
          rw [Nat.add_zero, first] at good
          cases good
    | ok value =>
      have shift : ∀ place, index + 1 + place = index + (place + 1) := by
        intro place
        omega
      rw [continueFrom_of_ok first, ih]
      simp only [shift]
      constructor
      · intro failed
        obtain ⟨place, inside, bad, before⟩ := failed
        refine ⟨place + 1, by omega, bad, ?_⟩
        intro earlier less
        cases earlier with
        | zero => exact ⟨value, first⟩
        | succ earlier => exact before earlier (by omega)
      · intro failed
        obtain ⟨place, inside, bad, before⟩ := failed
        cases place with
        | zero =>
          rw [Nat.add_zero, first] at bad
          cases bad
        | succ place =>
          refine ⟨place, by omega, bad, ?_⟩
          intro earlier less
          exact before (earlier + 1) (by omega)

theorem items_result_eq_error_iff {α : Type} (read : Nat → Except Error α) (count : Nat)
    (error : Error) :
    (items read count).result = .error error ↔
      ∃ index, index < count ∧ read index = .error error ∧
        ∀ earlier, earlier < index → ∃ value, read earlier = .ok value := by
  rw [items, continueFrom_result_eq_error_iff]
  simp only [Nat.zero_add]

end Scan

theorem HeaderTable.headers_result {table : HeaderTable} (filled : table.count ≠ 0#16)
    (image : Image) :
    (table.headers image).result =
      table.namesOffset image >>= fun names =>
        (Scan.items (table.headerAt image names) table.count.toNat).result := by
  rw [headers, if_neg filled]
  cases table.namesOffset image with
  | ok names => rfl
  | error error => rfl

end RiscvListing.Elf
