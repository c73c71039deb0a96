import RiscvListing.Json.Skip

namespace RiscvListing.Json

structure RecordField (α : Type) where
  key : String
  read : α → List Char → Except Fault (α × List Char)

def unwanted {α : Type} : Except Fault α → Fault
  | .ok _ => .mismatch
  | .error fault => fault

/-- The fault of an input at a place that does not take the value there. A word, number or text
is read to its end first, so that its own faults come out. -/
def refuse : List Char → Fault
  | [] => .unfinished
  | c :: rest =>
    if c = '[' ∨ c = '\x7b' then .mismatch
    else if c = '"' then unwanted (Quoted.read rest)
    else if c = '-' ∨ c.isDigit then unwanted (readNumber (c :: rest))
    else unwanted (Skip.scalar c rest)

def readFlag (input : List Char) : Except Fault (Bool × List Char) :=
  match skipBlank input with
  | 't' :: rest => (readWord ['r', 'u', 'e'] rest).map (true, ·)
  | 'f' :: rest => (readWord ['a', 'l', 's', 'e'] rest).map (false, ·)
  | other => .error (refuse other)

def readSize (input : List Char) : Except Fault (UInt64 × List Char) :=
  match skipBlank input with
  | [] => .error .unfinished
  | c :: rest =>
    if c = '-' ∨ c.isDigit then
      match readNumber (c :: rest) with
      | .ok (some number, rest) => .ok (UInt64.ofNat number, rest)
      | .ok (none, _) => .error .mismatch
      | .error fault => .error fault
    else .error (refuse (c :: rest))

def readColon (input : List Char) : Except Fault (List Char) :=
  match skipBlank input with
  | [] => .error .unfinished
  | ':' :: rest => .ok rest
  | _ => .error .malformed

namespace Record

inductive Member where
  | last (rest : List Char)
  | named (key : String) (rest : List Char)

def readQuote : List Char → Except Fault (List Char)
  | [] => .error .unfinished
  | '"' :: rest => .ok rest
  | _ => .error .malformed

/-- Finds the quote that opens the next key. All members but the first come behind a comma. -/
def openKey (first : Bool) : List Char → Except Fault (List Char)
  | ',' :: rest => if first then .error .malformed else readQuote (skipBlank rest)
  | input => if first then readQuote input else .error .malformed

def readKey (first : Bool) (input : List Char) : Except Fault Member :=
  match skipBlank input with
  | [] => .error .unfinished
  | '}' :: rest => .ok (.last rest)
  | start => do
    let (key, rest) ← Quoted.read (← openKey first start)
    return .named (String.ofList key) rest

theorem length_lt_of_readQuote {input rest : List Char} (read : readQuote input = .ok rest) :
    rest.length < input.length := by
  unfold readQuote at read
  split at read
  · simp at read
  · obtain rfl := Except.ok.inj read
    simp
  · simp at read

theorem length_le_of_readColon {input rest : List Char} (read : readColon input = .ok rest) :
    rest.length ≤ input.length := by
  have bound := length_skipBlank_le input
  unfold readColon at read
  split at read
  · simp at read
  · next start =>
    obtain rfl := Except.ok.inj read
    simp only [start, List.length_cons] at bound
    omega
  · simp at read

theorem length_lt_of_openKey {first : Bool} {input rest : List Char}
    (opened : openKey first input = .ok rest) : rest.length < input.length := by
  unfold openKey at opened
  split at opened
  · next tail =>
    split at opened
    · simp at opened
    · have quote := length_lt_of_readQuote opened
      have blank := length_skipBlank_le tail
      simp only [List.length_cons]
      omega
  · split at opened
    · exact length_lt_of_readQuote opened
    · simp at opened

theorem length_lt_of_readKey {first : Bool} {input rest : List Char} {key : String}
    (read : readKey first input = .ok (.named key rest)) : rest.length < input.length := by
  have blank := length_skipBlank_le input
  unfold readKey at read
  split at read
  · simp at read
  · simp at read
  · cases opened : openKey first (skipBlank input) with
    | error fault => simp [opened, bind, Except.bind] at read
    | ok text =>
      have quote := length_lt_of_openKey opened
      cases quoted : Quoted.read text with
      | error fault => simp [opened, quoted, bind, Except.bind] at read
      | ok result =>
        have closed := Quoted.length_lt_of_read quoted
        simp only [opened, quoted, bind, Except.bind, pure, Except.pure, Except.ok.injEq,
          Member.named.injEq] at read
        rw [read.2] at closed
        omega

def skipMember (input : List Char) : Except Fault (List Char) := do
  skipValue (← readColon input)

theorem length_lt_of_skipMember {input rest : List Char} (passed : skipMember input = .ok rest) :
    rest.length < input.length := by
  unfold skipMember at passed
  cases colon : readColon input with
  | error fault => simp [colon, bind, Except.bind] at passed
  | ok tail =>
    simp only [colon, bind, Except.bind] at passed
    exact Nat.lt_of_lt_of_le (Skip.length_lt_of_run passed) (length_le_of_readColon colon)

/-- The next member with one of the given keys. All others are passed over. -/
def nextKnown (known : List String) (first : Bool) (input : List Char) : Except Fault Member :=
  match named : readKey first input with
  | .error fault => .error fault
  | .ok (.last rest) => .ok (.last rest)
  | .ok (.named key rest) =>
    if key ∈ known then .ok (.named key rest)
    else
      match passed : skipMember rest with
      | .error fault => .error fault
      | .ok tail =>
        have : tail.length < input.length :=
          Nat.lt_trans (length_lt_of_skipMember passed) (length_lt_of_readKey named)
        nextKnown known false tail
termination_by input.length

/-- Reads the members of an object. A field that is no longer pending has been given before. -/
def readMembers {α : Type} (known : List String) (pending : List (RecordField α)) (first : Bool)
    (record : α) (input : List Char) : Except Fault (α × List Char) :=
  match nextKnown known first input with
  | .error fault => .error fault
  | .ok (.last rest) => .ok (record, rest)
  | .ok (.named key rest) =>
    match found : pending.find? (·.key = key) with
    | none => .error .mismatch
    | some field => do
      let (record, rest) ← field.read record (← readColon rest)
      have : (pending.eraseP (·.key = key)).length < pending.length := by
        have member := List.mem_of_find?_eq_some found
        have same := List.find?_some found
        rw [List.length_eraseP_of_mem member same]
        exact Nat.sub_one_lt_of_lt (List.length_pos_of_mem member)
      readMembers known (pending.eraseP (·.key = key)) false record rest
termination_by pending.length

/-- Reads the elements of an array, which give the fields in order. Fields at the end may be left
out. -/
def readElements {α : Type} (first : Bool) (record : α) (input : List Char) :
    List (RecordField α) → Except Fault (α × List Char)
  | [] =>
    match skipBlank input with
    | [] => .error .unfinished
    | ']' :: rest => .ok (record, rest)
    | _ => .error .malformed
  | field :: fields =>
    match skipBlank input with
    | [] => .error .unfinished
    | c :: rest =>
      if c = ']' then .ok (record, rest)
      else do
        let start ←
          if first then pure (c :: rest)
          else if c = ',' then
            match skipBlank rest with
            | [] => throw .unfinished
            | ']' :: _ => throw .malformed
            | start => pure start
          else throw .malformed
        let (record, rest) ← field.read record start
        readElements false record rest fields

/-- Reads an object or an array of the fields. Those that are not given keep their value. -/
def read {α : Type} (fields : List (RecordField α)) (record : α) (input : List Char) :
    Except Fault (α × List Char) :=
  match skipBlank input with
  | '\x7b' :: rest => readMembers (fields.map RecordField.key) fields true record rest
  | '[' :: rest => readElements true record rest fields
  | other => .error (refuse other)

end Record

def readAll {α : Type} (fields : List (RecordField α)) (record : α) (text : String) :
    Except Fault α := do
  let (record, rest) ← Record.read fields record text.toList
  if (skipBlank rest).isEmpty then return record else throw .malformed

end RiscvListing.Json
