import RiscvListing.Json.Basic

namespace RiscvListing.Json

structure Numeral where
  negative : Bool
  whole : List Char
  fraction : List Char
  decimal : Bool
  negativeExponent : Bool
  exponent : List Char
  deriving DecidableEq, Repr

namespace Numeral

def readDigits : List Char → Except Fault (List Char × List Char)
  | [] => .error .unfinished
  | c :: rest =>
    if c.isDigit then .ok (c :: rest.takeWhile Char.isDigit, rest.dropWhile Char.isDigit)
    else .error .malformed

/-- Reads the digits of a whole number, of which only zero starts with a zero. -/
def readWhole (input : List Char) : Except Fault (List Char × List Char) :=
  match readDigits input with
  | .ok ('0' :: _ :: _, _) => .error .malformed
  | result => result

def readFraction : List Char → Except Fault (List Char × List Char)
  | '.' :: rest => readDigits rest
  | input => .ok ([], input)

def readSign : List Char → Bool × List Char
  | '-' :: rest => (true, rest)
  | '+' :: rest => (false, rest)
  | input => (false, input)

def readExponent (input : List Char) : Except Fault (Bool × List Char × List Char) :=
  match input with
  | [] => .ok (false, [], [])
  | c :: rest =>
    if c = 'e' ∨ c = 'E' then do
      let (digits, tail) ← readDigits (readSign rest).2
      return ((readSign rest).1, digits, tail)
    else .ok (false, [], input)

def readUnsigned (negative : Bool) (input : List Char) :
    Except Fault (Numeral × List Char) := do
  let (whole, input) ← readWhole input
  let (fraction, input) ← readFraction input
  let (negativeExponent, exponent, input) ← readExponent input
  return (⟨negative, whole, fraction, !(fraction.isEmpty && exponent.isEmpty),
    negativeExponent, exponent⟩, input)

def read : List Char → Except Fault (Numeral × List Char)
  | '-' :: rest => readUnsigned true rest
  | input => readUnsigned false input

/-- Passes over a number. One that breaks off is malformed here. -/
def skip (input : List Char) : Except Fault (List Char) :=
  match read input with
  | .ok (_, rest) => .ok rest
  | .error _ => .error .malformed

def digit (c : Char) : Nat :=
  c.toNat - '0'.toNat

/-- Appends digits to a number as long as it has at most 64 bits. Gives back the number and the
digits that are left. -/
def collect (number : Nat) : List Char → Nat × List Char
  | [] => (number, [])
  | c :: rest =>
    if 10 * number + digit c < 2 ^ 64 then collect (10 * number + digit c) rest
    else (number, c :: rest)

def natural? (numeral : Numeral) : Option Nat :=
  match collect 0 numeral.whole with
  | (number, []) => if numeral.negative || numeral.decimal then none else some number
  | _ => none

/-- The nearest number of at most 53 significant bits. A tie goes to the even one. -/
def nearest (number : Nat) : Nat :=
  let unit := Nat.pow 2 (number.log2 - 52)
  let high := number / unit
  let twice := 2 * (number % unit)
  if twice < unit ∨ twice = unit ∧ high % 2 = 0 then high * unit else (high + 1) * unit

/-- The leading digits of a numeral that fit into 64 bits, and the power of ten to scale them by.
The digits of the fraction are taken until one does not fit. -/
def scaled (numeral : Numeral) : Nat × Int :=
  let (number, dropped) := collect 0 numeral.whole
  let (number, ignored) := collect number numeral.fraction
  let exponent : Nat := Nat.ofDigitChars 10 numeral.exponent 0
  let shift : Int := if numeral.negativeExponent then -exponent else exponent
  (number, shift + dropped.length - (numeral.fraction.length - ignored.length : Nat))

/-- The least value that is rounded up beyond 53 bits with an exponent of 1023. -/
def doubleLimit : Nat :=
  Nat.pow 2 1024 - Nat.pow 2 970

/-- The value is too large for a binary number of 53 bits, when its digits and its power of ten are
rounded before they are multiplied. -/
def exceedsDouble (numeral : Numeral) : Bool :=
  match numeral.scaled with
  | (0, _) => false
  | (number, .ofNat power) =>
    308 < power || doubleLimit ≤ nearest number * nearest (Nat.pow 10 power)
  | (_, .negSucc _) => false

theorem length_lt_of_readDigits {input digits rest : List Char}
    (read : readDigits input = .ok (digits, rest)) : rest.length < input.length := by
  cases input with
  | nil => simp [readDigits] at read
  | cons c tail =>
    simp only [readDigits] at read
    split at read
    · simp only [Except.ok.injEq, Prod.mk.injEq] at read
      have bound := (List.dropWhile_sublist (l := tail) Char.isDigit).length_le
      rw [read.2] at bound
      simp only [List.length_cons]
      omega
    · simp at read

theorem length_lt_of_readWhole {input digits rest : List Char}
    (read : readWhole input = .ok (digits, rest)) : rest.length < input.length := by
  unfold readWhole at read
  split at read
  · simp at read
  · exact length_lt_of_readDigits read

theorem length_le_of_readFraction {input digits rest : List Char}
    (read : readFraction input = .ok (digits, rest)) : rest.length ≤ input.length := by
  unfold readFraction at read
  split at read
  · have bound := length_lt_of_readDigits read
    simp only [List.length_cons]
    omega
  · simp_all

theorem length_readSign_le (input : List Char) : (readSign input).2.length ≤ input.length := by
  unfold readSign
  split <;> simp

theorem length_le_of_readExponent {input digits rest : List Char} {negative : Bool}
    (read : readExponent input = .ok (negative, digits, rest)) : rest.length ≤ input.length := by
  unfold readExponent at read
  split at read
  · simp_all
  · next c tail =>
    split at read
    · cases digits_read : readDigits (readSign tail).2 with
      | error fault => simp [digits_read, bind, Except.bind] at read
      | ok result =>
        simp only [digits_read, bind, Except.bind, pure, Except.pure, Except.ok.injEq,
          Prod.mk.injEq] at read
        have bound := length_lt_of_readDigits digits_read
        have sign := length_readSign_le tail
        rw [read.2.2] at bound
        simp only [List.length_cons]
        omega
    · simp_all

theorem length_lt_of_readUnsigned {input rest : List Char} {negative : Bool} {numeral : Numeral}
    (read : readUnsigned negative input = .ok (numeral, rest)) : rest.length < input.length := by
  unfold readUnsigned at read
  simp only [bind, Except.bind, pure, Except.pure] at read
  split at read
  · simp at read
  · next whole whole_read =>
    split at read
    · simp at read
    · next fraction fraction_read =>
      split at read
      · simp at read
      · next exponent exponent_read =>
        simp only [Except.ok.injEq, Prod.mk.injEq] at read
        have first := length_lt_of_readWhole whole_read
        have second := length_le_of_readFraction fraction_read
        have third := length_le_of_readExponent exponent_read
        rw [read.2] at third
        omega

theorem length_lt_of_read {input rest : List Char} {numeral : Numeral}
    (read : read input = .ok (numeral, rest)) : rest.length < input.length := by
  unfold Numeral.read at read
  split at read
  · have bound := length_lt_of_readUnsigned read
    simp only [List.length_cons]
    omega
  · exact length_lt_of_readUnsigned read

theorem length_lt_of_skip {input rest : List Char} (passed : skip input = .ok rest) :
    rest.length < input.length := by
  unfold skip at passed
  split at passed
  · next read =>
    obtain rfl := Except.ok.inj passed
    exact length_lt_of_read read
  · simp at passed

end Numeral

def readNumber (input : List Char) : Except Fault (Option Nat × List Char) := do
  let (numeral, rest) ← Numeral.read input
  if numeral.exceedsDouble then throw .malformed
  return (numeral.natural?, rest)

end RiscvListing.Json
