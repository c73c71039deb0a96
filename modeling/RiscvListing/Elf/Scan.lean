import RiscvListing.Elf.Error

namespace RiscvListing.Elf

structure Scan (α : Type) where
  values : List α
  failure : Option Error

namespace Scan

def result {α : Type} (scan : Scan α) : Except Error (List α) :=
  match scan.failure with
  | none => .ok scan.values
  | some error => .error error

/-- Reads `count` items from `index` on behind those already read, the last of which comes first
in `done`. -/
def continueFrom {α : Type} (read : Nat → Except Error α) (index : Nat) :
    Nat → List α → Scan α
  | 0, done => ⟨done.reverse, none⟩
  | count + 1, done =>
    match read index with
    | .ok value => continueFrom read (index + 1) count (value :: done)
    | .error error => ⟨done.reverse, some error⟩

def items {α : Type} (read : Nat → Except Error α) (count : Nat) : Scan α :=
  continueFrom read 0 count []

theorem continueFrom_of_ok {α : Type} {read : Nat → Except Error α} {index : Nat} {value : α}
    (good : read index = .ok value) (count : Nat) (done : List α) :
    continueFrom read index (count + 1) done =
      continueFrom read (index + 1) count (value :: done) := by
  simp [continueFrom, good]

theorem continueFrom_of_error {α : Type} {read : Nat → Except Error α} {index : Nat}
    {error : Error} (bad : read index = .error error) (count : Nat) (done : List α) :
    continueFrom read index (count + 1) done = ⟨done.reverse, some error⟩ := by
  simp [continueFrom, bad]

def failed {α : Type} (error : Error) : Scan α :=
  ⟨[], some error⟩

end Scan

end RiscvListing.Elf
