import RiscvListing.Json.Quoted
import RiscvListing.Json.Number

namespace RiscvListing.Json

inductive Bracket where
  | array | object
  deriving DecidableEq, Repr

namespace Skip

inductive Awaiting where
  | value
  | element
  | firstKey
  | key
  | separator
  deriving DecidableEq, Repr

inductive Progress where
  | done (rest : List Char)
  | more (awaiting : Awaiting) (brackets : List Bracket) (rest : List Char)

def Progress.rest : Progress → List Char
  | done rest => rest
  | more _ _ rest => rest

def valueEnd (brackets : List Bracket) (rest : List Char) : Progress :=
  match brackets with
  | [] => .done rest
  | _ :: _ => .more .separator brackets rest

def scalar (c : Char) (rest : List Char) : Except Fault (List Char) :=
  if c = 'n' then readWord ['u', 'l', 'l'] rest
  else if c = 't' then readWord ['r', 'u', 'e'] rest
  else if c = 'f' then readWord ['a', 'l', 's', 'e'] rest
  else if c = '"' then Quoted.skip rest
  else if c = '-' ∨ c.isDigit then Numeral.skip (c :: rest)
  else .error .malformed

def value (brackets : List Bracket) (c : Char) (rest : List Char) : Except Fault Progress :=
  if c = '[' then .ok (.more .element (.array :: brackets) rest)
  else if c = '\x7b' then .ok (.more .firstKey (.object :: brackets) rest)
  else (scalar c rest).map (valueEnd brackets)

def key (brackets : List Bracket) (c : Char) (rest : List Char) : Except Fault Progress :=
  if c = '"' then
    match Quoted.skip rest with
    | .error fault => .error fault
    | .ok rest =>
      match skipBlank rest with
      | [] => .error .unfinished
      | ':' :: rest => .ok (.more .value brackets rest)
      | _ => .error .malformed
  else .error .malformed

def separator (brackets : List Bracket) (c : Char) (rest : List Char) : Except Fault Progress :=
  match brackets, c with
  | .array :: _, ',' => .ok (.more .value brackets rest)
  | .array :: outer, ']' => .ok (valueEnd outer rest)
  | .object :: _, ',' => .ok (.more .key brackets rest)
  | .object :: outer, '\x7d' => .ok (valueEnd outer rest)
  | _, _ => .error .malformed

def token (awaiting : Awaiting) (brackets : List Bracket) (c : Char) (rest : List Char) :
    Except Fault Progress :=
  match awaiting with
  | .value => value brackets c rest
  | .element => if c = ']' then .ok (valueEnd brackets.tail rest) else value brackets c rest
  | .firstKey => if c = '\x7d' then .ok (valueEnd brackets.tail rest) else key brackets c rest
  | .key => key brackets c rest
  | .separator => separator brackets c rest

theorem rest_valueEnd (brackets : List Bracket) (rest : List Char) :
    (valueEnd brackets rest).rest = rest := by
  cases brackets <;> rfl

theorem length_le_of_scalar {c : Char} {input rest : List Char}
    (passed : scalar c input = .ok rest) : rest.length ≤ input.length := by
  unfold scalar at passed
  split at passed
  · exact length_le_of_readWord passed
  split at passed
  · exact length_le_of_readWord passed
  split at passed
  · exact length_le_of_readWord passed
  split at passed
  · exact Nat.le_of_lt (Quoted.length_lt_of_skip passed)
  split at passed
  · exact Nat.le_of_lt_succ (Numeral.length_lt_of_skip passed)
  · simp at passed

theorem length_le_of_value {brackets : List Bracket} {c : Char} {input : List Char}
    {progress : Progress} (passed : value brackets c input = .ok progress) :
    progress.rest.length ≤ input.length := by
  unfold value at passed
  split at passed
  · obtain rfl := Except.ok.inj passed
    exact Nat.le_refl _
  split at passed
  · obtain rfl := Except.ok.inj passed
    exact Nat.le_refl _
  · cases scalar_read : scalar c input with
    | error fault => simp [scalar_read, Except.map] at passed
    | ok rest =>
      simp only [scalar_read, Except.map, Except.ok.injEq] at passed
      rw [← passed, rest_valueEnd]
      exact length_le_of_scalar scalar_read

theorem length_le_of_key {brackets : List Bracket} {c : Char} {input : List Char}
    {progress : Progress} (passed : key brackets c input = .ok progress) :
    progress.rest.length ≤ input.length := by
  unfold key at passed
  split at passed
  · split at passed
    · simp at passed
    · next middle text_read =>
      have first := Quoted.length_lt_of_skip text_read
      have second := length_skipBlank_le middle
      split at passed
      · simp at passed
      · next rest blank =>
        obtain rfl := Except.ok.inj passed
        simp only [blank, List.length_cons] at second
        simp only [Progress.rest]
        omega
      · simp at passed
  · simp at passed

theorem rest_of_separator {brackets : List Bracket} {c : Char} {input : List Char}
    {progress : Progress} (passed : separator brackets c input = .ok progress) :
    progress.rest = input := by
  unfold separator at passed
  split at passed
  · obtain rfl := Except.ok.inj passed
    rfl
  · obtain rfl := Except.ok.inj passed
    exact rest_valueEnd _ _
  · obtain rfl := Except.ok.inj passed
    rfl
  · obtain rfl := Except.ok.inj passed
    exact rest_valueEnd _ _
  · simp at passed

theorem length_le_of_token {awaiting : Awaiting} {brackets : List Bracket} {c : Char}
    {input : List Char} {progress : Progress}
    (passed : token awaiting brackets c input = .ok progress) :
    progress.rest.length ≤ input.length := by
  cases awaiting with
  | value => exact length_le_of_value passed
  | element =>
    simp only [token] at passed
    split at passed
    · obtain rfl := Except.ok.inj passed
      exact Nat.le_of_eq (congrArg List.length (rest_valueEnd _ _))
    · exact length_le_of_value passed
  | firstKey =>
    simp only [token] at passed
    split at passed
    · obtain rfl := Except.ok.inj passed
      exact Nat.le_of_eq (congrArg List.length (rest_valueEnd _ _))
    · exact length_le_of_key passed
  | key => exact length_le_of_key passed
  | separator => exact Nat.le_of_eq (congrArg List.length (rest_of_separator passed))

theorem length_lt_of_token {awaiting : Awaiting} {brackets : List Bracket} {c : Char}
    {input tail : List Char} {progress : Progress} (start : skipBlank input = c :: tail)
    (passed : token awaiting brackets c tail = .ok progress) :
    progress.rest.length < input.length := by
  have shorter := length_skipBlank_le input
  have bound := length_le_of_token passed
  simp only [start, List.length_cons] at shorter
  omega

def run (awaiting : Awaiting) (brackets : List Bracket) (input : List Char) :
    Except Fault (List Char) :=
  match start : skipBlank input with
  | [] => .error .unfinished
  | c :: tail =>
    match passed : token awaiting brackets c tail with
    | .error fault => .error fault
    | .ok (.done rest) => .ok rest
    | .ok (.more awaiting brackets rest) =>
      have : rest.length < input.length := length_lt_of_token start passed
      run awaiting brackets rest
termination_by input.length

theorem length_lt_of_run {awaiting : Awaiting} {brackets : List Bracket} {input rest : List Char}
    (passed : run awaiting brackets input = .ok rest) : rest.length < input.length := by
  fun_induction run awaiting brackets input with
  | case1 => simp at passed
  | case2 => simp at passed
  | case3 awaiting brackets input c tail start last finished =>
    obtain rfl := Except.ok.inj passed
    exact length_lt_of_token start finished
  | case4 awaiting brackets input c tail start awaiting' brackets' later continued shorter ih =>
    exact Nat.lt_trans (ih passed) shorter

end Skip

def skipValue (input : List Char) : Except Fault (List Char) :=
  Skip.run .value [] input

end RiscvListing.Json
