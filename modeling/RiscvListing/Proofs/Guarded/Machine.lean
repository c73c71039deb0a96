import Mathlib.Algebra.Group.Int.Defs
import Mathlib.Algebra.Group.Nat.Defs
import RiscvListing.Proofs.Elf.Reading

namespace RiscvListing

/-- Why a machine with words of 64 bits cannot go on. -/
inductive Trap where
  | overflow
  | outOfRange
  | shiftAmount
  | endless
  deriving DecidableEq, Repr

/-- A computation in which every operation is guarded. The first one that the machine cannot do
stops it. Otherwise it ends with a value or with a complaint about the file. -/
abbrev Guarded (α : Type) : Type :=
  ExceptT Elf.Error (Except Trap) α

namespace Guarded

variable {α β : Type}

def trap (reason : Trap) : Guarded α :=
  ExceptT.mk (.error reason)

def guarded (reason : Trap) (fits : Prop) [Decidable fits] (value : α) : Guarded α :=
  if fits then pure value else trap reason

def add (first second : Nat) : Guarded Nat :=
  guarded .overflow (first + second < 2 ^ 64) (first + second)

/-- A sum that the program itself looks at before it uses it. -/
def add? (first second : Nat) : Option Nat :=
  if first + second < 2 ^ 64 then some (first + second) else none

def mul (first second : Nat) : Guarded Nat :=
  guarded .overflow (first * second < 2 ^ 64) (first * second)

def sub (first second : Nat) : Guarded Nat :=
  guarded .overflow (second ≤ first) (first - second)

def shiftLeft (value amount : Nat) : Guarded Nat :=
  guarded .shiftAmount (amount < 64) (value <<< amount % 2 ^ 64)

def subSigned (first second : Int) : Guarded Int :=
  guarded .overflow (-2 ^ 63 ≤ first - second ∧ first - second < 2 ^ 63) (first - second)

/-- A number as a signed one of 32 bits, into which it has to fit. -/
def narrow (value : Int) : Guarded (BitVec 32) :=
  guarded .overflow (-2 ^ 31 ≤ value ∧ value < 2 ^ 31) (BitVec.ofInt 32 value)

def element (values : Array α) (index : Nat) : Guarded α :=
  match values[index]? with
  | some value => pure value
  | none => trap .outOfRange

def slice (values : Array α) (start stop : Nat) : Guarded (Array α) :=
  guarded .outOfRange (start ≤ stop ∧ stop ≤ values.size) (values.extract start stop)

/-- Goes from `position` on in steps until `stop` is reached. A loop that has not come to its end
when the rounds are used up has none. -/
def loop (step stop : Nat) (body : Nat → Guarded α) : Nat → Nat → List α → Guarded (List α)
  | 0, _, _ => trap .endless
  | rounds + 1, position, done =>
    if position < stop then do
      let value ← body position
      let next ← add position step
      loop step stop body rounds next (value :: done)
    else return done.reverse

/-- The computation is not stopped, and it ends as the plain one does. -/
def Yields (computation : Guarded α) (plain : Except Elf.Error α) : Prop :=
  computation.run = .ok plain

theorem yields_pure (value : α) : Yields (pure value) (.ok value) :=
  rfl

theorem yields_throw (error : Elf.Error) : Yields (throw error : Guarded α) (.error error) :=
  rfl

theorem yields_guarded {reason : Trap} {fits : Prop} [Decidable fits] (holds : fits) (value : α) :
    Yields (guarded reason fits value) (.ok value) := by
  rw [guarded, if_pos holds]
  exact yields_pure value

theorem yields_add {first second : Nat} (small : first + second < 2 ^ 64) :
    Yields (add first second) (.ok (first + second)) :=
  yields_guarded small _

example : (add (2 ^ 64 - 1) 1).run = .error .overflow :=
  rfl

theorem yields_mul {first second : Nat} (small : first * second < 2 ^ 64) :
    Yields (mul first second) (.ok (first * second)) :=
  yields_guarded small _

theorem yields_sub {first second : Nat} (ordered : second ≤ first) :
    Yields (sub first second) (.ok (first - second)) :=
  yields_guarded ordered _

theorem yields_subSigned {first second : Int} (least : -2 ^ 63 ≤ first - second)
    (most : first - second < 2 ^ 63) :
    Yields (subSigned first second) (.ok (first - second)) :=
  yields_guarded ⟨least, most⟩ _

theorem yields_narrow {value : Int} (least : -2 ^ 31 ≤ value) (most : value < 2 ^ 31) :
    Yields (narrow value) (.ok (BitVec.ofInt 32 value)) :=
  yields_guarded ⟨least, most⟩ _

theorem yields_slice {values : Array α} {start stop : Nat} (ordered : start ≤ stop)
    (inside : stop ≤ values.size) :
    Yields (slice values start stop) (.ok (values.extract start stop)) :=
  yields_guarded ⟨ordered, inside⟩ _

theorem yields_element {values : Array α} {index : Nat} {value : α}
    (found : values[index]? = some value) : Yields (element values index) (.ok value) := by
  rw [element, found]
  exact yields_pure value

theorem Yields.bind {first : Guarded α} {plain : Except Elf.Error α} {next : α → Guarded β}
    {after : α → Except Elf.Error β} (yields : Yields first plain)
    (later : ∀ value, plain = .ok value → Yields (next value) (after value)) :
    Yields (first >>= next) (plain >>= after) := by
  have step : (first >>= next).run = first.run >>= ExceptT.bindCont next := rfl
  rw [Yields, step, yields]
  cases plain with
  | error error => rfl
  | ok value => exact later value rfl

theorem Yields.next {first : Guarded α} {value : α} {next : α → Guarded β}
    {plain : Except Elf.Error β} (yields : Yields first (.ok value))
    (later : Yields (next value) plain) : Yields (first >>= next) plain := by
  have both : Yields (first >>= next) (.ok value >>= fun _ => plain) := by
    apply yields.bind
    rintro _ ⟨⟩
    exact later
  exact both

theorem eq_pure_of_yields {computation : Guarded α} {value : α}
    (yields : Yields computation (.ok value)) : computation = pure value :=
  yields

section Loop

variable {step stop start count : Nat} {body : Nat → Guarded α} {read : Nat → Except Elf.Error α}
  (inside : ∀ index, index < count → start + step * index < stop)
  (ends : stop ≤ start + step * count) (small : start + step * count < 2 ^ 64)
  (each : ∀ index, index < count → Yields (body (start + step * index)) (read index))

include inside ends small each

theorem yields_loop {index left rounds : Nat} (split : index + left = count)
    (enough : left < rounds) (done : List α) :
    Yields (loop step stop body rounds (start + step * index) done)
      (Elf.Scan.continueFrom read index left done).result := by
  induction left generalizing index rounds done with
  | zero =>
    obtain ⟨rounds, rfl⟩ : ∃ fewer, rounds = fewer + 1 := ⟨rounds - 1, by omega⟩
    obtain rfl : index = count := split
    rw [loop, if_neg (Nat.not_lt.mpr ends)]
    exact yields_pure done.reverse
  | succ left ih =>
    obtain ⟨rounds, rfl⟩ : ∃ fewer, rounds = fewer + 1 := ⟨rounds - 1, by omega⟩
    have before : index < count := by omega
    have advance : start + step * index + step = start + step * (index + 1) := by
      rw [Nat.mul_succ, Nat.add_assoc]
    have bound : step * (index + 1) ≤ step * count := Nat.mul_le_mul_left step before
    rw [loop, if_pos (inside index before), Elf.Scan.continueFrom_result_succ]
    refine (each index before).bind fun value _ => ?_
    refine (yields_add (by omega)).next ?_
    rw [advance]
    exact ih (by omega) (by omega) (value :: done)

theorem yields_items {rounds : Nat} (enough : count < rounds) :
    Yields (loop step stop body rounds start []) (Elf.Scan.items read count).result := by
  have run := yields_loop inside ends small each (Nat.zero_add count) enough []
  rw [Nat.mul_zero, Nat.add_zero] at run
  exact run

example : (loop 0 1 (fun position => pure position) 9 0 []).run = .error .endless :=
  rfl

end Loop

theorem yields_mapM {guardedItem : α → Guarded β} {item : α → β} {values : List α}
    (each : ∀ value ∈ values, Yields (guardedItem value) (.ok (item value))) :
    Yields (values.mapM guardedItem) (.ok (values.map item)) := by
  induction values with
  | nil => exact yields_pure []
  | cons value values ih =>
    rw [List.mapM_cons]
    refine (each value List.mem_cons_self).next ?_
    exact (ih fun other member => each other (List.mem_cons_of_mem _ member)).next (yields_pure _)

end Guarded

end RiscvListing
