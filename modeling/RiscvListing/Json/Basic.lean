namespace RiscvListing.Json

inductive Fault where
  | unfinished
  | malformed
  | mismatch
  deriving DecidableEq, Repr

def isBlank (c : Char) : Bool :=
  c == ' ' || c == '\t' || c == '\n' || c == '\r'

def skipBlank (input : List Char) : List Char :=
  input.dropWhile isBlank

def readWord : List Char → List Char → Except Fault (List Char)
  | [], input => .ok input
  | _ :: _, [] => .error .unfinished
  | expected :: word, c :: input =>
    if c = expected then readWord word input else .error .malformed

theorem length_skipBlank_le (input : List Char) : (skipBlank input).length ≤ input.length :=
  (List.dropWhile_sublist isBlank).length_le

theorem length_le_of_readWord {word input rest : List Char}
    (read : readWord word input = .ok rest) : rest.length ≤ input.length := by
  fun_induction readWord word input with
  | case1 => simp_all
  | case2 => simp at read
  | case3 word c input ih =>
    have bound := ih read
    simp only [List.length_cons]
    omega
  | case4 => simp at read

end RiscvListing.Json
