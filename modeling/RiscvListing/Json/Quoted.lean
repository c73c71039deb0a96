import RiscvListing.Json.Basic

namespace RiscvListing.Json

inductive Piece where
  | plain (c : Char)
  | code (number : Nat)
  deriving DecidableEq, Repr

namespace Quoted

def hexDigit? (c : Char) : Option Nat :=
  if '0' ≤ c ∧ c ≤ '9' then some (c.toNat - '0'.toNat)
  else if 'a' ≤ c ∧ c ≤ 'f' then some (c.toNat - 'a'.toNat + 10)
  else if 'A' ≤ c ∧ c ≤ 'F' then some (c.toNat - 'A'.toNat + 10)
  else none

def hexCode? (a b c d : Char) : Option Nat := do
  let a ← hexDigit? a
  let b ← hexDigit? b
  let c ← hexDigit? c
  let d ← hexDigit? d
  return ((a * 16 + b) * 16 + c) * 16 + d

def escaped? : Char → Option Char
  | '"' => some '"'
  | '\\' => some '\\'
  | '/' => some '/'
  | 'b' => some '\x08'
  | 'f' => some '\x0c'
  | 'n' => some '\n'
  | 'r' => some '\r'
  | 't' => some '\t'
  | _ => none

/-- Too little text for four digits: the text has ended, unless four bytes of it are left. -/
def shortCode (input : List Char) : Fault :=
  if 4 ≤ (String.ofList input).utf8ByteSize then .malformed else .unfinished

/-- The parts of a quoted text up to its closing quote or its first fault, and what comes then. -/
def scan : List Char → List Piece × Except Fault (List Char)
  | [] => ([], .error .unfinished)
  | '"' :: rest => ([], .ok rest)
  | '\\' :: 'u' :: a :: b :: c :: d :: rest =>
    match hexCode? a b c d with
    | some number => (.code number :: (scan rest).1, (scan rest).2)
    | none => ([], .error .malformed)
  | '\\' :: 'u' :: rest => ([], .error (shortCode rest))
  | '\\' :: c :: rest =>
    match escaped? c with
    | some character => (.plain character :: (scan rest).1, (scan rest).2)
    | none => ([], .error .malformed)
  | ['\\'] => ([], .error .unfinished)
  | c :: rest =>
    if c < ' ' then ([], .error .malformed)
    else (.plain c :: (scan rest).1, (scan rest).2)

def isLeading (number : Nat) : Bool :=
  0xd800 ≤ number && number < 0xdc00

def isTrailing (number : Nat) : Bool :=
  0xdc00 ≤ number && number < 0xe000

def pair (leading trailing : Nat) : Char :=
  Char.ofNat ((leading - 0xd800) * 0x400 + (trailing - 0xdc00) + 0x10000)

def prepend (c : Char) (read : Except Fault (List Char × List Char)) :
    Except Fault (List Char × List Char) :=
  read.map fun (text, rest) => (c :: text, rest)

/-- The characters of the parts of a quoted text. A leading code needs a trailing one right behind
it, and there is no other place for a trailing code. -/
def join (ending : Except Fault (List Char)) : List Piece → Except Fault (List Char × List Char)
  | [] => ending.map ([], ·)
  | .plain c :: pieces => prepend c (join ending pieces)
  | .code number :: pieces =>
    if isTrailing number then .error .malformed
    else if isLeading number then
      match pieces, ending with
      | .code trailing :: pieces, ending =>
        if isTrailing trailing then prepend (pair number trailing) (join ending pieces)
        else .error .malformed
      | [], .error fault => .error fault
      | _, _ => .error .malformed
    else prepend (Char.ofNat number) (join ending pieces)

def read (input : List Char) : Except Fault (List Char × List Char) :=
  join (scan input).2 (scan input).1

def skip (input : List Char) : Except Fault (List Char) :=
  (scan input).2

theorem length_lt_of_skip {input rest : List Char} (passed : skip input = .ok rest) :
    rest.length < input.length := by
  unfold skip at passed
  fun_induction scan input with
  | case2 tail =>
    obtain rfl := Except.ok.inj passed
    simp
  | case3 a b c d tail number code ih =>
    have bound := ih passed
    simp only [List.length_cons]
    omega
  | case6 c tail code letter character known ih =>
    have bound := ih passed
    simp only [List.length_cons]
    omega
  | case10 c tail quote code short escape single printable ih =>
    have bound := ih passed
    simp only [List.length_cons]
    omega
  | _ => simp at passed

theorem prepend_eq_ok {c : Char} {read : Except Fault (List Char × List Char)}
    {text rest : List Char} (prepended : prepend c read = .ok (text, rest)) :
    ∃ tail, read = .ok (tail, rest) ∧ text = c :: tail := by
  cases read with
  | error fault => simp [prepend, Except.map] at prepended
  | ok result => simp_all [prepend, Except.map, Prod.ext_iff, eq_comm]

/-- The rest of a text that was read is what the scan leaves. -/
theorem ending_of_join {ending : Except Fault (List Char)} {pieces : List Piece}
    {text rest : List Char} (joined : join ending pieces = .ok (text, rest)) :
    ending = .ok rest := by
  fun_induction join ending pieces generalizing text with
  | case1 ending =>
    cases ending with
    | error fault => simp [Except.map] at joined
    | ok tail =>
      simp only [Except.map, Except.ok.injEq, Prod.mk.injEq] at joined
      rw [joined.2]
  | case2 ending c pieces ih =>
    obtain ⟨tail, read, _⟩ := prepend_eq_ok joined
    exact ih read
  | case4 number leading_not_trailing leading trailing pieces ending paired ih =>
    obtain ⟨tail, read, _⟩ := prepend_eq_ok joined
    exact ih read
  | case8 ending number pieces not_trailing not_leading ih =>
    obtain ⟨tail, read, _⟩ := prepend_eq_ok joined
    exact ih read
  | _ => simp at joined

theorem length_lt_of_read {input text rest : List Char} (read : read input = .ok (text, rest)) :
    rest.length < input.length :=
  length_lt_of_skip (ending_of_join read)

end Quoted

def quoteCharacter (c : Char) : List Char :=
  if c = '"' ∨ c = '\\' then ['\\', c]
  else if c = '\n' then ['\\', 'n']
  else if c = '\r' then ['\\', 'r']
  else if c = '\t' then ['\\', 't']
  else if c < ' ' then
    ['\\', 'u', '0', '0', Nat.digitChar (c.toNat / 16), Nat.digitChar (c.toNat % 16)]
  else [c]

def quote (text : String) : String :=
  "\"" ++ String.ofList (text.toList.flatMap quoteCharacter) ++ "\""

end RiscvListing.Json
