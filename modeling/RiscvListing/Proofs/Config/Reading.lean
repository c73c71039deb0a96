import Mathlib.Data.List.Nodup
import RiscvListing.Config.Reader
import RiscvListing.Proofs.Json.Record

namespace RiscvListing

open Json Json.Grammar

namespace Config

structure Given where
  maxFileSize : Option UInt64
  strict : Option Bool
  emitSymtab : Option Bool

def Given.settings (given : Given) : Config :=
  ⟨given.maxFileSize.getD 67108864, given.strict.getD true, given.emitSymtab.getD true⟩

/-- Each of the known keys is given at most once. All other members are arbitrary. -/
structure Loose (known : List String) (members : List (String × List Char)) : Prop where
  once : ∀ key ∈ known, (members.map Prod.fst).count key ≤ 1
  others : ∀ member ∈ members, member.1 ∉ known → Value member.2

/-- What the members say under a key, where `Text` tells how it is written. -/
structure Says {β : Type} (members : List (String × List Char)) (key : String)
    (Text : Option β → List Char → Prop) (given : Option β) : Prop where
  present : ∀ member ∈ members, member.1 = key → Text given member.2
  absent : (∀ member ∈ members, member.1 ≠ key) → given = none

def Literal {β : Type} (Text : β → List Char → Prop) (given : Option β) (text : List Char) : Prop :=
  ∃ value, given = some value ∧ Text value text

inductive Group {β : Type} (key : String) (Text : β → List Char → Prop) (given : Option β) :
    List Char → Prop where
  | object {members : List (String × List Char)} {text : List Char} (object : Object members text)
    (loose : Loose [key] members) (said : Says members key (Literal Text) given) :
    Group key Text given text

/-- A text that gives settings: an object with a group for each of them. -/
inductive Describes (given : Given) : List Char → Prop where
  | object {members : List (String × List Char)} {before text after : List Char}
    (blank : Blank before) (alsoBlank : Blank after) (object : Object members text)
    (loose : Loose ["io", "sections", "output"] members)
    (io : Says members "io" (Group "max_file_size" fun size : UInt64 => Natural size.toNat)
      given.maxFileSize)
    (sections : Says members "sections" (Group "strict" Flag) given.strict)
    (output : Says members "output" (Group "emit_symtab" Flag) given.emitSymtab) :
    Describes given (before ++ (text ++ after))

theorem loose_of_nodup {known : List String} {members : List (String × List Char)}
    (distinct : (members.map Prod.fst).Nodup) (all : ∀ member ∈ members, member.1 ∈ known) :
    Loose known members where
  once key _ := List.nodup_iff_count.mp distinct key
  others member inside unknown := absurd (all member inside) unknown

theorem said_of_nodup {β : Type} {members : List (String × List Char)} {key : String}
    {text : List Char} {Text : Option β → List Char → Prop} {given : Option β}
    (distinct : (members.map Prod.fst).Nodup) (inside : (key, text) ∈ members)
    (written : Text given text) : Says members key Text given where
  present := by
    intro member alsoInside same
    have equal := List.inj_on_of_nodup_map distinct alsoInside inside same
    rw [equal]
    exact written
  absent none := absurd rfl (none (key, text) inside)

def groupText (key : String) (value : List Char) : List Char :=
  '\x7b' :: (memberText key value ++ ['\x7d'])

theorem group_groupText {β : Type} {key : String} {Text : β → List Char → Prop} {value : β}
    {text : List Char} (plain : AllPlain key.toList) (literal : Text value text) :
    Group key Text (some value) (groupText key text) := by
  have object : Object [(key, text)] (groupText key text) :=
    .braces (.some (.last (member_memberText plain text)))
  have distinct : ([(key, text)].map Prod.fst).Nodup := List.nodup_singleton key
  have loose : Loose [key] [(key, text)] := by
    apply loose_of_nodup distinct
    intro member inside
    rw [List.mem_singleton.mp inside]
    exact List.mem_cons_self
  exact .object object loose (said_of_nodup distinct List.mem_cons_self ⟨value, rfl, literal⟩)

theorem describes_of_object {given : Given} {members : List (String × List Char)}
    {text : List Char} (object : Object members text)
    (loose : Loose ["io", "sections", "output"] members)
    (io : Says members "io" (Group "max_file_size" fun size : UInt64 => Natural size.toNat)
      given.maxFileSize)
    (sections : Says members "sections" (Group "strict" Flag) given.strict)
    (output : Says members "output" (Group "emit_symtab" Flag) given.emitSymtab) :
    Describes given text := by
  have described := Describes.object blank_nil blank_nil object loose io sections output
  rwa [List.nil_append, List.append_nil] at described

def only {α : Type} (key : String) (change : α → α) (other : String) : α → α :=
  if other = key then change else id

theorem only_self {α : Type} (key : String) (change : α → α) : only key change key = change :=
  if_pos rfl

theorem only_of_ne {α : Type} {key other : String} (apart : other ≠ key) (change : α → α) :
    only key change other = id :=
  if_neg apart

theorem foldl_of_once {α γ : Type} {effect : String → α → α} {key : String} (project : α → γ)
    (change : γ → γ) (hit : ∀ record, project (effect key record) = change (project record))
    (miss : ∀ other, other ≠ key → ∀ record, project (effect other record) = project record)
    {members : List (String × List Char)} (once : (members.map Prod.fst).count key ≤ 1)
    (record : α) :
    project (members.foldl (fun record member => effect member.1 record) record) =
      if key ∈ members.map Prod.fst then change (project record) else project record := by
  induction members generalizing record with
  | nil => simp
  | cons member members ih =>
    rw [List.foldl_cons, List.map_cons]
    rw [List.map_cons, List.count_cons] at once
    by_cases same : member.1 = key
    · have last : key ∉ members.map Prod.fst := by
        apply List.count_eq_zero.mp
        simp only [same, beq_self_eq_true, if_true] at once
        omega
      rw [ih (by omega), if_neg last, same, hit, if_pos List.mem_cons_self]
    · have other : key ≠ member.1 := fun equal => same equal.symm
      rw [ih (by omega), miss member.1 same]
      simp only [List.mem_cons, other, false_or]

theorem foldl_of_said {α β γ : Type} {effect : String → α → α} {key : String} (project : α → γ)
    (change : Option β → γ → γ) {Text : Option β → List Char → Prop} {given : Option β}
    {members : List (String × List Char)} (said : Says members key Text given)
    (nothing : ∀ value, change none value = value)
    (hit : ∀ record, project (effect key record) = change given (project record))
    (miss : ∀ other, other ≠ key → ∀ record, project (effect other record) = project record)
    (once : (members.map Prod.fst).count key ≤ 1) (record : α) :
    project (members.foldl (fun record member => effect member.1 record) record) =
      change given (project record) := by
  rw [foldl_of_once project (change given) hit miss once]
  split
  · rfl
  · next absent =>
    have none := said.absent fun member inside same =>
      absent (same ▸ List.mem_map_of_mem inside)
    rw [none, nothing]

def apply {β : Type} (set : β → Config → Config) (given : Option β) (config : Config) : Config :=
  given.elim config (set · config)

theorem takes_group {β : Type} {Text : β → List Char → Prop} {field : RecordField Config}
    {set : β → Config → Config}
    (takes : ∀ value text, Text value text → field.Takes text (set value)) (key : String)
    {given : Option β} {text : List Char} (group : Group field.key Text given text) :
    RecordField.Takes ⟨key, Record.read [field]⟩ text (apply set given) := by
  obtain ⟨object, loose, said⟩ := group
  next members =>
  have fits : Record.Fits ([field].map RecordField.key) (only field.key (apply set given)) [field]
      members := by
    refine ⟨?_, loose.others, loose.once, ?_, ?_⟩
    · intro other unknown
      exact only_of_ne (by simpa using unknown) _
    · intro member inside expected
      exact ⟨field, List.mem_cons_self, (List.mem_singleton.mp expected).symm⟩
    · intro member inside other waits same
      obtain rfl := List.mem_singleton.mp waits
      obtain ⟨value, rfl, literal⟩ := said.present member inside same.symm
      rw [← same, only_self]
      exact takes value member.2 literal
  intro config blank rest shape ends
  have once := loose.once field.key List.mem_cons_self
  have folded : members.foldl (fun config member =>
      only field.key (apply set given) member.1 config) config = apply set given config := by
    apply foldl_of_said id (apply set) said (fun _ => rfl) _ _ once config
    · intro config
      rw [only_self]
      rfl
    · intro other apart config
      rw [only_of_ne apart]
      rfl
  have read := Record.read_of_object object fits config shape rest
  rw [folded] at read
  exact read

def setMaxFileSize (size : UInt64) (config : Config) : Config :=
  { config with maxFileSize := size }

def setStrict (flag : Bool) (config : Config) : Config :=
  { config with strict := flag }

def setEmitSymtab (flag : Bool) (config : Config) : Config :=
  { config with emitSymtab := flag }

theorem takes_sizeField (size : UInt64) (text : List Char) (natural : Natural size.toNat text) :
    sizeField.Takes text (setMaxFileSize size) := by
  intro config blank rest shape ends
  simp only [sizeField, readSize_of_natural natural shape ends, Bind.bind, Except.bind]
  rfl

theorem takes_strictField (flag : Bool) (text : List Char) (word : Flag flag text) :
    strictField.Takes text (setStrict flag) := by
  intro config blank rest shape ends
  simp only [strictField, readFlag_of_flag word shape rest, Bind.bind, Except.bind]
  rfl

theorem takes_symtabField (flag : Bool) (text : List Char) (word : Flag flag text) :
    symtabField.Takes text (setEmitSymtab flag) := by
  intro config blank rest shape ends
  simp only [symtabField, readFlag_of_flag word shape rest, Bind.bind, Except.bind]
  rfl

namespace Given

variable (given : Given)

def effect (key : String) (config : Config) : Config :=
  only "io" (apply setMaxFileSize given.maxFileSize) key
    (only "sections" (apply setStrict given.strict) key
      (only "output" (apply setEmitSymtab given.emitSymtab) key config))

theorem effect_io : given.effect "io" = apply setMaxFileSize given.maxFileSize := by
  funext config
  simp (disch := decide) only [effect, only_self, only_of_ne, id_eq]

theorem effect_sections : given.effect "sections" = apply setStrict given.strict := by
  funext config
  simp (disch := decide) only [effect, only_self, only_of_ne, id_eq]

theorem effect_output : given.effect "output" = apply setEmitSymtab given.emitSymtab := by
  funext config
  simp (disch := decide) only [effect, only_self, only_of_ne, id_eq]

theorem effect_unknown {key : String} (unknown : key ∉ ["io", "sections", "output"]) :
    given.effect key = id := by
  funext config
  simp only [List.mem_cons, List.not_mem_nil, or_false, not_or] at unknown
  rw [effect, only_of_ne unknown.1, only_of_ne unknown.2.1, only_of_ne unknown.2.2]
  rfl

theorem project_only {β γ : Type} (project : Config → γ) (set : β → Config → Config)
    (keeps : ∀ value config, project (set value config) = project config) (key other : String)
    (given : Option β) (config : Config) :
    project (only key (apply set given) other config) = project config := by
  unfold only
  split
  · cases given with
    | none => rfl
    | some value => exact keeps value config
  · rfl

theorem effect_keeps {key : String} (config : Config) :
    (key ≠ "io" → (given.effect key config).maxFileSize = config.maxFileSize) ∧
    (key ≠ "sections" → (given.effect key config).strict = config.strict) ∧
    (key ≠ "output" → (given.effect key config).emitSymtab = config.emitSymtab) := by
  unfold effect
  refine ⟨?_, ?_, ?_⟩
  · intro apart
    rw [only_of_ne apart, id_eq, project_only Config.maxFileSize setStrict fun _ _ => rfl,
      project_only Config.maxFileSize setEmitSymtab fun _ _ => rfl]
  · intro apart
    rw [project_only Config.strict setMaxFileSize fun _ _ => rfl, only_of_ne apart, id_eq,
      project_only Config.strict setEmitSymtab fun _ _ => rfl]
  · intro apart
    rw [project_only Config.emitSymtab setMaxFileSize fun _ _ => rfl,
      project_only Config.emitSymtab setStrict fun _ _ => rfl, only_of_ne apart, id_eq]

end Given

variable {given : Given}

theorem fits_fields {members : List (String × List Char)}
    (loose : Loose ["io", "sections", "output"] members)
    (io : Says members "io" (Group "max_file_size" fun size : UInt64 => Natural size.toNat)
      given.maxFileSize)
    (sections : Says members "sections" (Group "strict" Flag) given.strict)
    (output : Says members "output" (Group "emit_symtab" Flag) given.emitSymtab) :
    Record.Fits (fields.map RecordField.key) given.effect fields members where
  neutral _ unknown := given.effect_unknown unknown
  others := loose.others
  once := loose.once
  waiting _ _ expected := List.mem_map.mp expected
  takes := by
    intro member inside field waits same
    simp only [fields, List.mem_cons, List.not_mem_nil, or_false] at waits
    rcases waits with rfl | rfl | rfl
    · rw [← same, given.effect_io]
      exact takes_group takes_sizeField "io" (io.present member inside same.symm)
    · rw [← same, given.effect_sections]
      exact takes_group takes_strictField "sections" (sections.present member inside same.symm)
    · rw [← same, given.effect_output]
      exact takes_group takes_symtabField "output" (output.present member inside same.symm)

theorem foldl_effect {members : List (String × List Char)}
    (loose : Loose ["io", "sections", "output"] members)
    (io : Says members "io" (Group "max_file_size" fun size : UInt64 => Natural size.toNat)
      given.maxFileSize)
    (sections : Says members "sections" (Group "strict" Flag) given.strict)
    (output : Says members "output" (Group "emit_symtab" Flag) given.emitSymtab) :
    members.foldl (fun config member => given.effect member.1 config) .standard =
      given.settings := by
  have size := foldl_of_said maxFileSize (fun given size => given.getD size) io (fun _ => rfl)
    (fun config => by rw [given.effect_io]; cases given.maxFileSize <;> rfl)
    (fun key apart config => (given.effect_keeps config).1 apart)
    (loose.once "io" (by decide)) standard
  have strictness := foldl_of_said strict (fun given flag => given.getD flag) sections
    (fun _ => rfl)
    (fun config => by rw [given.effect_sections]; cases given.strict <;> rfl)
    (fun key apart config => (given.effect_keeps config).2.1 apart)
    (loose.once "sections" (by decide)) standard
  have symtab := foldl_of_said emitSymtab (fun given flag => given.getD flag) output (fun _ => rfl)
    (fun config => by rw [given.effect_output]; cases given.emitSymtab <;> rfl)
    (fun key apart config => (given.effect_keeps config).2.2 apart)
    (loose.once "output" (by decide)) standard
  generalize members.foldl (fun config member => given.effect member.1 config) standard = config
    at size strictness symtab
  calc
    config = ⟨config.maxFileSize, config.strict, config.emitSymtab⟩ := rfl
    _ = given.settings := by rw [size, strictness, symtab]; rfl

theorem ofText_eq_settings {text : String} (described : Describes given text.toList) :
    ofText text = .ok given.settings := by
  generalize whole : text.toList = characters at described
  obtain ⟨blank, alsoBlank, object, loose, io, sections, output⟩ := described
  have read := readAll_of_object object (fits_fields loose io sections output) standard blank
    alsoBlank whole
  rw [ofText, read, foldl_effect loose io sections output]

/-- A text means the settings that it gives. The order of its members, its blanks and all other
members have no influence. -/
theorem ofText_of_describes {text : String} (described : Describes given text.toList) :
    ofText text = .ok ⟨given.maxFileSize.getD 67108864, given.strict.getD true,
      given.emitSymtab.getD true⟩ ∧
    ∀ other : String, Describes given other.toList → ofText other = ofText text := by
  refine ⟨ofText_eq_settings described, ?_⟩
  intro other alsoDescribed
  rw [ofText_eq_settings described, ofText_eq_settings alsoDescribed]

/-- An unknown key is given twice, once with half of a pair inside, and a known one has a code. -/
def looseText : String :=
  "\x7b \"io\":\x7b\x7d,\"a\":[\x7b\"\\ud800\":-1e2\x7d],\"a\":null,\n\"s\\u0065ctions\":" ++
    "\x7b\"strict\":false\x7d\x7d"

def halfPair : List Char :=
  ['\\', 'u', 'd', '8', '0', '0']

def halfPairText : List Char :=
  '\x7b' :: '"' :: (halfPair ++ ['"', ':', '-', '1', 'e', '2', '\x7d'])

theorem value_halfPairText : Value halfPairText := by
  have whole : Whole ['1'] := ⟨⟨by decide, List.forall_mem_singleton.mpr rfl⟩, by decide⟩
  have power : Digits ['2'] := ⟨by decide, List.forall_mem_singleton.mpr rfl⟩
  have number : Number (['-'] ++ (['1'] ++ ([] ++ 'e' :: ([] ++ ['2'])))) :=
    .parts (.inr rfl) whole .absent (.digits (.inl rfl) (.inl rfl) power)
  have code : Code (13 * 4096 + 8 * 256 + 0 * 16 + 0) halfPair :=
    .digits ⟨by decide, .inl rfl⟩ ⟨by decide, .inl rfl⟩ ⟨by decide, .inl rfl⟩ ⟨by decide, .inl rfl⟩
  have key : Verbatim halfPair (halfPair ++ []) := ⟨rfl, .code code .nil⟩
  have member : Member Verbatim (halfPair, ['-', '1', 'e', '2']) _ :=
    .named blank_nil key blank_nil blank_nil blank_nil
  exact .object (.some (.last member)) (by simpa using Value.number number)

def looseMembers : List (String × List Char) :=
  [("io", ['\x7b', '\x7d']), ("a", '[' :: (halfPairText ++ [']'])), ("a", ['n', 'u', 'l', 'l']),
    ("sections", groupText "strict" ['f', 'a', 'l', 's', 'e'])]

theorem object_looseText : Object looseMembers looseText.toList := by
  have code : Code (0 * 4096 + 0 * 256 + 6 * 16 + 5) ['\\', 'u', '0', '0', '6', '5'] :=
    .digits ⟨by decide, .inl rfl⟩ ⟨by decide, .inl rfl⟩ ⟨by decide, .inl rfl⟩ ⟨by decide, .inl rfl⟩
  have spelled : Named "sections" ('s' :: (['\\', 'u', '0', '0', '6', '5'] ++ "ctions".toList)) :=
    .plain (by decide) (.code code (by simp [Leading, Trailing]) (spells_self (by decide)))
  have io : Member Named ("io", ['\x7b', '\x7d']) _ :=
    .named (by decide : Blank [' ']) (spells_self (by decide)) blank_nil blank_nil blank_nil
  have sections : Member Named ("sections", groupText "strict" ['f', 'a', 'l', 's', 'e']) _ :=
    .named (by decide : Blank ['\n']) spelled blank_nil blank_nil blank_nil
  have object : Object looseMembers _ := .braces (.some (.cons io (.cons
    (member_memberText (by decide) _) (.cons
    (member_memberText (by decide) _) (.last sections)))))
  convert object using 1
  delta looseText
  simp only [String.toList_append, String.reduceToList, memberText, groupText,
    halfPairText, halfPair, List.cons_append, List.nil_append, List.append_nil]

theorem describes_looseText : Describes ⟨none, some false, none⟩ looseText.toList := by
  have array : Value ('[' :: (halfPairText ++ [']'])) := by
    have listed : Listed Element [halfPairText] ([] ++ (halfPairText ++ [])) :=
      .some (.last (.padded blank_nil blank_nil))
    exact .array listed (by simpa using value_halfPairText)
  have loose : Loose ["io", "sections", "output"] looseMembers := by
    refine ⟨by decide, ?_⟩
    intro member inside unknown
    simp only [looseMembers, List.mem_cons, List.not_mem_nil, or_false] at inside
    rcases inside with rfl | rfl | rfl | rfl
    · exact absurd (by decide) unknown
    · exact array
    · exact .null
    · exact absurd (by decide) unknown
  have size : Group "max_file_size" (fun size : UInt64 => Natural size.toNat) none
      ['\x7b', '\x7d'] := by
    have object : Object [] ['\x7b', '\x7d'] := .braces (.none blank_nil)
    exact .object object (loose_of_nodup List.nodup_nil (by simp)) ⟨by simp, by simp⟩
  have strict : Group "strict" Flag (some false) (groupText "strict" ['f', 'a', 'l', 's', 'e']) :=
    group_groupText (by decide) .false
  apply describes_of_object object_looseText loose
  · refine ⟨?_, fun _ => rfl⟩
    simpa [looseMembers] using size
  · refine ⟨?_, ?_⟩
    · simpa [looseMembers] using strict
    · simp [looseMembers]
  · refine ⟨?_, fun _ => rfl⟩
    simp [looseMembers]

theorem ofText_looseText : ofText looseText = .ok ⟨67108864, false, true⟩ :=
  (ofText_of_describes describes_looseText).1

end Config

end RiscvListing
