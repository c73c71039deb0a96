import RiscvListing.Json.Record
import RiscvListing.Proofs.Json.Value

namespace RiscvListing.Json

open Grammar

theorem readFlag_of_flag {flag : Bool} {text blank : List Char} (word : Flag flag text)
    (shape : Blank blank) (rest : List Char) :
    readFlag (blank ++ (text ++ rest)) = .ok (flag, rest) := by
  unfold readFlag
  cases word with
  | true =>
    rw [List.cons_append, skipBlank_append_cons shape rfl]
    exact congrArg (Except.map (true, ·)) (readWord_append ['r', 'u', 'e'] rest)
  | false =>
    rw [List.cons_append, skipBlank_append_cons shape rfl]
    exact congrArg (Except.map (false, ·)) (readWord_append ['a', 'l', 's', 'e'] rest)

theorem readSize_of_natural {size : UInt64} {text blank rest : List Char}
    (natural : Natural size.toNat text) (shape : Blank blank) (ends : EndsNumber rest) :
    readSize (blank ++ (text ++ rest)) = .ok (size, rest) := by
  have number := readNumber_of_natural natural size.toNat_lt ends
  obtain ⟨⟨⟨some, all⟩, -⟩, -⟩ := natural
  cases text with
  | nil => exact absurd rfl some
  | cons c text =>
    have digit : c.isDigit = true := all c List.mem_cons_self
    have solid : isBlank c = false := isBlank_of_isDigit digit
    rw [List.cons_append] at number ⊢
    rw [readSize, skipBlank_append_cons shape solid]
    simp only [if_pos (Or.inr digit : c = '-' ∨ c.isDigit = true), number, UInt64.ofNat_toNat]

theorem readColon_of_blank {beside : List Char} (shape : Blank beside) (rest : List Char) :
    readColon (beside ++ ':' :: rest) = .ok rest := by
  rw [readColon, skipBlank_append_cons shape rfl]
  rfl

/-- A field takes the text of a value, whatever blanks stand before it, and has an effect on the
record. -/
def RecordField.Takes {α : Type} (field : RecordField α) (text : List Char) (effect : α → α) :
    Prop :=
  ∀ (record : α) (blank rest : List Char), Blank blank → EndsNumber rest →
    field.read record (blank ++ (text ++ rest)) = .ok (effect record, rest)

namespace Record

/-- What stands before a member: blanks, and a comma unless it is the first one. -/
inductive Lead : Bool → List Char → Prop where
  | first {blank : List Char} (shape : Blank blank) : Lead true blank
  | later {blank : List Char} (shape : Blank blank) : Lead false (blank ++ [','])

theorem readKey_of_named {first : Bool} {lead before quoted : List Char} {key : String}
    (start : Lead first lead) (blank : Blank before) (spelled : Named key quoted)
    (rest : List Char) :
    readKey first (lead ++ (before ++ '"' :: (quoted ++ '"' :: rest))) =
      .ok (.named key rest) := by
  have text : (Quoted.read (quoted ++ '"' :: rest)).map
      (fun read => Member.named (String.ofList read.1) read.2) = .ok (.named key rest) := by
    rw [Quoted.read_of_spells spelled rest]
    simp only [Except.map, String.ofList_toList]
  unfold readKey
  cases start with
  | first shape =>
    rw [skipBlank_append shape, skipBlank_append_cons blank rfl]
    exact text
  | @later space shape =>
    have opened : openKey false (',' :: (before ++ '"' :: (quoted ++ '"' :: rest))) =
        .ok (quoted ++ '"' :: rest) := by
      change readQuote (skipBlank (before ++ '"' :: (quoted ++ '"' :: rest))) = _
      rw [skipBlank_append_cons blank rfl]
      rfl
    rw [List.append_assoc, List.singleton_append, skipBlank_append_cons shape rfl]
    change (openKey false (',' :: (before ++ '"' :: (quoted ++ '"' :: rest))) >>= fun text =>
      Quoted.read text >>= fun read => pure (Member.named (String.ofList read.1) read.2)) = _
    rw [opened]
    exact text

theorem readKey_of_close (first : Bool) {blank : List Char} (shape : Blank blank)
    (rest : List Char) : readKey first (blank ++ '\x7d' :: rest) = .ok (.last rest) := by
  rw [readKey, skipBlank_append_cons shape rfl]
  rfl

theorem nextKnown_eq (known : List String) (first : Bool) (input : List Char) :
    nextKnown known first input =
      match readKey first input with
      | .error fault => .error fault
      | .ok (.last rest) => .ok (.last rest)
      | .ok (.named key rest) =>
        if key ∈ known then .ok (.named key rest)
        else (skipMember rest).bind (nextKnown known false) := by
  rw [nextKnown]
  split
  · next failed => rw [failed]
  · next closed => rw [closed]
  · next key rest named =>
    simp only [named]
    split
    · rfl
    · split
      · next failed =>
        rw [failed]
        rfl
      · next passed =>
        rw [passed]
        rfl

variable {α : Type} {known : List String} {pending : List (RecordField α)}

theorem readMembers_eq (first : Bool) (record : α) (input : List Char) :
    readMembers known pending first record input =
      match nextKnown known first input with
      | .error fault => .error fault
      | .ok (.last rest) => .ok (record, rest)
      | .ok (.named key rest) =>
        match pending.find? (·.key = key) with
        | none => .error .mismatch
        | some field => (do
          let (record, rest) ← field.read record (← readColon rest)
          readMembers known (pending.eraseP (·.key = key)) false record rest) := by
  rw [readMembers]
  cases nextKnown known first input with
  | error fault => rfl
  | ok member =>
    cases member with
    | last rest => rfl
    | named key rest =>
      dsimp only
      split
      · next missing => rw [missing]
      · next field found => rw [found]

theorem readMembers_of_close (first : Bool) (record : α) {blank : List Char}
    (shape : Blank blank) (rest : List Char) :
    readMembers known pending first record (blank ++ '\x7d' :: rest) = .ok (record, rest) := by
  rw [readMembers_eq, nextKnown_eq, readKey_of_close first shape]

theorem readMembers_of_member (known : List String) (pending : List (RecordField α))
    {member : String × List Char} {text : List Char} (shape : Grammar.Member Named member text)
    {first : Bool} {lead : List Char} (start : Lead first lead) (record : α) {rest : List Char}
    (ends : EndsNumber rest) :
    ∃ after, Blank after ∧
      (member.1 ∉ known → Value member.2 →
        readMembers known pending first record (lead ++ (text ++ rest)) =
          readMembers known pending false record (after ++ rest)) ∧
      ∀ (field : RecordField α) (effect : α → α), member.1 ∈ known →
        pending.find? (·.key = member.1) = some field → field.Takes member.2 effect →
          readMembers known pending first record (lead ++ (text ++ rest)) =
            readMembers known (pending.eraseP (·.key = member.1)) false (effect record)
              (after ++ rest) := by
  obtain ⟨blank, spelled, besideKey, beforeValue, behind⟩ := shape
  next key quoted value before beside between after =>
  have later := endsNumber_blank behind ends
  have named := readKey_of_named start blank spelled
    (beside ++ ':' :: (between ++ (value ++ (after ++ rest))))
  have colon := readColon_of_blank besideKey (between ++ (value ++ (after ++ rest)))
  simp only [List.append_assoc, List.cons_append]
  refine ⟨after, behind, ?_, ?_⟩
  · intro other shape
    have passed : skipMember (beside ++ ':' :: (between ++ (value ++ (after ++ rest)))) =
        .ok (after ++ rest) := by
      rw [skipMember, colon]
      exact skipValue_of_value shape beforeValue later
    have next : nextKnown known first (lead ++ (before ++ '"' :: (quoted ++ '"' ::
        (beside ++ ':' :: (between ++ (value ++ (after ++ rest))))))) =
          nextKnown known false (after ++ rest) := by
      rw [nextKnown_eq, named]
      simp only [if_neg other, passed]
      rfl
    rw [readMembers_eq, next, readMembers_eq false]
  · intro field effect expected found takes
    rw [readMembers_eq, nextKnown_eq, named]
    simp only [if_pos expected, found, colon,
      takes record between (after ++ rest) beforeValue later, Bind.bind, Except.bind]

/-- The members that a record takes: those with a known key are given once and each has a field that
takes its value, and the others have any value and no effect. -/
structure Fits (known : List String) (effect : String → α → α) (pending : List (RecordField α))
    (members : List (String × List Char)) : Prop where
  neutral : ∀ key, key ∉ known → effect key = id
  others : ∀ member ∈ members, member.1 ∉ known → Value member.2
  once : ∀ key ∈ known, (members.map Prod.fst).count key ≤ 1
  waiting : ∀ member ∈ members, member.1 ∈ known → ∃ field ∈ pending, field.key = member.1
  takes : ∀ member ∈ members, ∀ field ∈ pending, field.key = member.1 →
    field.Takes member.2 (effect member.1)

def left (known : List String) (pending : List (RecordField α)) (key : String) :
    List (RecordField α) :=
  if key ∈ known then pending.eraseP (·.key = key) else pending

variable {effect : String → α → α} {member : String × List Char}
  {members : List (String × List Char)}

theorem Fits.next (fits : Fits known effect pending (member :: members)) :
    Fits known effect (left known pending member.1) members where
  neutral := fits.neutral
  others other inside := fits.others other (List.mem_cons_of_mem _ inside)
  once := by
    intro key expected
    have count := fits.once key expected
    rw [List.map_cons, List.count_cons] at count
    omega
  waiting := by
    intro other inside expected
    obtain ⟨field, waits, same⟩ := fits.waiting other (List.mem_cons_of_mem _ inside) expected
    refine ⟨field, ?_, same⟩
    unfold left
    split
    · next given =>
      have count := fits.once member.1 given
      rw [List.map_cons, List.count_cons_self] at count
      have absent : member.1 ∉ members.map Prod.fst := List.count_eq_zero.mp (by omega)
      have apart : field.key ≠ member.1 := by
        intro equal
        rw [← equal, same] at absent
        exact absent (List.mem_map_of_mem inside)
      rw [List.mem_eraseP_of_neg (by simpa using apart)]
      exact waits
    · exact waits
  takes := by
    intro other inside field waits
    have pending : field ∈ pending := by
      unfold left at waits
      split at waits
      · exact List.mem_of_mem_eraseP waits
      · exact waits
    exact fits.takes other (List.mem_cons_of_mem _ inside) field pending

theorem readMembers_step (fits : Fits known effect pending (member :: members)) {text : List Char}
    (shape : Grammar.Member Named member text) {first : Bool} {lead : List Char}
    (start : Lead first lead) (record : α) {rest : List Char} (ends : EndsNumber rest) :
    ∃ after, Blank after ∧
      readMembers known pending first record (lead ++ (text ++ rest)) =
        readMembers known (left known pending member.1) false (effect member.1 record)
          (after ++ rest) := by
  obtain ⟨after, blank, passed, taken⟩ :=
    readMembers_of_member known pending shape start record ends
  refine ⟨after, blank, ?_⟩
  by_cases expected : member.1 ∈ known
  · obtain ⟨field, waits, same⟩ := fits.waiting member List.mem_cons_self expected
    have some : (pending.find? (·.key = member.1)).isSome = true :=
      List.find?_isSome.mpr ⟨field, waits, by simpa using same⟩
    obtain ⟨found, isFound⟩ := Option.isSome_iff_exists.mp some
    have key : found.key = member.1 := by simpa using List.find?_some isFound
    have takes := fits.takes member List.mem_cons_self found
      (List.mem_of_find?_eq_some isFound) key
    rw [left, if_pos expected, taken found _ expected isFound takes]
  · have value := fits.others member List.mem_cons_self expected
    rw [left, if_neg expected, fits.neutral member.1 expected, passed expected value]
    rfl

theorem readMembers_of_separated {text : List Char}
    (separated : Separated (Grammar.Member Named) members text)
    (fits : Fits known effect pending members) {first : Bool} {lead : List Char}
    (start : Lead first lead) (record : α) (rest : List Char) :
    readMembers known pending first record (lead ++ (text ++ '\x7d' :: rest)) =
      .ok (members.foldl (fun record member => effect member.1 record) record, rest) := by
  induction separated generalizing pending first lead record with
  | last shape =>
    obtain ⟨after, blank, step⟩ := readMembers_step fits shape start record
      (Bracket.object.endsNumber_close rest)
    rw [show '\x7d' = Bracket.object.close from rfl, step]
    exact readMembers_of_close false _ blank rest
  | @cons member members text more shape separated ih =>
    have ends : EndsNumber (',' :: (more ++ '\x7d' :: rest)) := endsNumber_cons (by decide) _
    obtain ⟨after, blank, step⟩ := readMembers_step fits shape start record ends
    have later := ih fits.next (.later blank) (effect member.1 record)
    rw [List.append_assoc, List.singleton_append] at later
    rw [List.append_assoc, List.cons_append, step, later, List.foldl_cons]

theorem read_of_object {fields : List (RecordField α)} {text : List Char}
    (object : Grammar.Object members text)
    (fits : Fits (fields.map RecordField.key) effect fields members) (record : α)
    {blank : List Char} (shape : Blank blank) (rest : List Char) :
    read fields record (blank ++ (text ++ rest)) =
      .ok (members.foldl (fun record member => effect member.1 record) record, rest) := by
  obtain ⟨listed⟩ := object
  next inside =>
  have braces : ['\x7d'] ++ rest = '\x7d' :: rest := rfl
  rw [read, List.cons_append, skipBlank_append_cons shape rfl, List.append_assoc, braces]
  change readMembers _ fields true record (inside ++ '\x7d' :: rest) = _
  cases listed with
  | none blank => exact readMembers_of_close true record blank rest
  | some separated => exact readMembers_of_separated separated fits (.first blank_nil) record rest

end Record

theorem readAll_of_object {α : Type} {fields : List (RecordField α)} {effect : String → α → α}
    {members : List (String × List Char)} {before object after : List Char}
    (shape : Object members object)
    (fits : Record.Fits (fields.map RecordField.key) effect fields members) (record : α)
    (blank : Blank before) (alsoBlank : Blank after) {text : String}
    (whole : text.toList = before ++ (object ++ after)) :
    readAll fields record text =
      .ok (members.foldl (fun record member => effect member.1 record) record) := by
  have ending : skipBlank after = [] := by
    have skipped := skipBlank_append alsoBlank []
    rwa [List.append_nil] at skipped
  simp only [readAll, whole, Record.read_of_object shape fits record blank after, Bind.bind,
    Except.bind, ending, List.isEmpty_nil, if_true, Pure.pure, Except.pure]

end RiscvListing.Json
