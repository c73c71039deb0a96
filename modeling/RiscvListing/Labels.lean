import Std.Data.TreeMap
import RiscvListing.Instruction.Decode

namespace RiscvListing

structure Labels where
  names : Std.TreeMap Address String compare
  synthetic : Nat

namespace Labels

def empty : Labels :=
  ⟨∅, 0⟩

def get? (labels : Labels) (address : Address) : Option String :=
  labels.names[address]?

def contains (labels : Labels) (address : Address) : Bool :=
  labels.names.contains address

def size (labels : Labels) : Nat :=
  labels.names.size

def toList (labels : Labels) : List (Address × String) :=
  labels.names.toList

def insert (labels : Labels) (address : Address) (name : String) : Labels :=
  { labels with names := labels.names.insert address name }

/-- Names addresses one after another, so that the last name given to an address stays. -/
def insertAll (labels : Labels) (named : List (Address × String)) : Labels :=
  named.foldl (fun labels entry => labels.insert entry.1 entry.2) labels

def syntheticName (count : Nat) : String :=
  "L" ++ Text.decimal count

/-- Gives an address without a name the next synthetic one. -/
def ensure (labels : Labels) (address : Address) : Labels :=
  if labels.contains address then labels
  else ⟨labels.names.insert address (syntheticName labels.synthetic), labels.synthetic + 1⟩

def discover (labels : Labels) (code : List CodeWord) : Labels :=
  (code.filterMap CodeWord.target?).foldl ensure labels

@[simp]
theorem get?_empty (address : Address) : empty.get? address = none := by
  simp [empty, get?]

theorem get?_insert (labels : Labels) (address other : Address) (name : String) :
    (labels.insert address name).get? other =
      if address = other then some name else labels.get? other := by
  simp [insert, get?, Std.TreeMap.getElem?_insert]

@[simp]
theorem synthetic_insert (labels : Labels) (address : Address) (name : String) :
    (labels.insert address name).synthetic = labels.synthetic :=
  rfl

theorem ensure_of_contains {labels : Labels} {address : Address}
    (named : labels.contains address = true) : labels.ensure address = labels := by
  simp [ensure, named]

theorem get?_ensure_of_not_contains {labels : Labels} {address : Address}
    (unnamed : labels.contains address = false) (other : Address) :
    (labels.ensure address).get? other =
      if address = other then some (syntheticName labels.synthetic) else labels.get? other := by
  simp [ensure, unnamed, get?, Std.TreeMap.getElem?_insert]

theorem synthetic_ensure_of_not_contains {labels : Labels} {address : Address}
    (unnamed : labels.contains address = false) :
    (labels.ensure address).synthetic = labels.synthetic + 1 := by
  simp [ensure, unnamed]

end Labels

end RiscvListing
