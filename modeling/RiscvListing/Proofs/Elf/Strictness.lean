import RiscvListing.Proofs.Elf.Record

namespace RiscvListing.Elf

def Unmissed {α : Type} (result : Except Error α) : Prop :=
  ∀ role, result ≠ .error (.missingSection role)

theorem unmissed_ok {α : Type} (value : α) : Unmissed (.ok value) := by
  rintro role ⟨⟩

theorem Unmissed.bind {α β : Type} {first : Except Error α} {next : α → Except Error β}
    (before : Unmissed first) (after : ∀ value, Unmissed (next value)) :
    Unmissed (first >>= next) := by
  cases first with
  | error error =>
    intro role same
    exact before role (congrArg Except.error (Except.error.inj same))
  | ok value => exact after value

theorem unmissed_checkRange (start count length : Nat) :
    Unmissed (checkRange start count length) := by
  unfold checkRange
  split
  · exact unmissed_ok ()
  · rintro role ⟨⟩

theorem unmissed_items {α : Type} {read : Nat → Except Error α} (count : Nat)
    (each : ∀ index, Unmissed (read index)) : Unmissed (Scan.items read count).result := by
  intro role failed
  obtain ⟨index, -, bad, -⟩ := (Scan.items_result_eq_error_iff read count _).mp failed
  exact each index role bad

namespace Image

variable (image : Image) (start : Nat)

theorem unmissed_halfAt : Unmissed (image.halfAt start) :=
  (unmissed_checkRange start 2 image.size).bind fun _ => unmissed_ok _

theorem unmissed_wordAt : Unmissed (image.wordAt start) :=
  (unmissed_checkRange start 4 image.size).bind fun _ => unmissed_ok _

theorem unmissed_nameAt : Unmissed (image.nameAt start) := by
  unfold nameAt
  split
  · exact unmissed_ok _
  · rintro role ⟨⟩

theorem unmissed_ofBytes (bytes : Bytes) : Unmissed (ofBytes bytes) := by
  unfold ofBytes
  split
  · exact unmissed_ok _
  · rintro role ⟨⟩

end Image

namespace HeaderTable

theorem unmissed_read (image : Image) : Unmissed (read image) := by
  refine (image.unmissed_wordAt 0x20).bind fun offset => ?_
  refine (image.unmissed_halfAt 0x30).bind fun count => ?_
  exact (image.unmissed_halfAt 0x32).bind fun nameIndex => unmissed_ok _

variable (table : HeaderTable) (image : Image)

theorem unmissed_namesOffset : Unmissed (table.namesOffset image) := by
  refine (unmissed_checkRange _ _ _).bind fun _ => ?_
  split
  · exact (image.unmissed_wordAt _).bind fun _ => unmissed_ok _
  · rintro role ⟨⟩

theorem unmissed_headerAt (names index : Nat) :
    Unmissed (table.headerAt image names index) := by
  refine (image.unmissed_wordAt _).bind fun nameOffset => ?_
  refine (image.unmissed_nameAt _).bind fun name => ?_
  refine (image.unmissed_wordAt _).bind fun address => ?_
  refine (image.unmissed_wordAt _).bind fun offset => ?_
  exact (image.unmissed_wordAt _).bind fun size => unmissed_ok _

theorem unmissed_headers : Unmissed (table.headers image).result := by
  unfold headers
  split
  · exact unmissed_ok []
  · cases found : table.namesOffset image with
    | ok names => exact unmissed_items _ (table.unmissed_headerAt image names)
    | error error =>
      intro role failed
      refine table.unmissed_namesOffset image role ?_
      rw [found]
      exact congrArg Except.error (Except.error.inj failed)

end HeaderTable

def SectionRole.before : SectionRole → List SectionRole
  | text => []
  | symtab => [text]
  | strtab => [text, symtab]

theorem SectionRole.find?_eq_some_iff (chosen : SectionRole → Bool) (role : SectionRole) :
    [text, symtab, strtab].find? chosen = some role ↔
      chosen role = true ∧ ∀ earlier ∈ role.before, chosen earlier = false := by
  cases first : chosen text <;> cases second : chosen symtab <;> cases third : chosen strtab <;>
    cases role <;> simp [before, first, second, third]

def Section.firstAbsent? (headers : List SectionHeader) : Option SectionRole :=
  [SectionRole.text, .symtab, .strtab].find? fun role =>
    headers.all fun header => header.name ≠ role.name

theorem Section.isNone_header? (role : SectionRole) (headers : List SectionHeader) :
    (header? role headers).isNone = headers.all fun header => header.name ≠ role.name := by
  rw [Bool.eq_iff_iff, Option.isNone_iff_eq_none, header?, List.find?_eq_none]
  simp

namespace Sections

theorem exists_select_lenient (headers : List SectionHeader) :
    ∃ sections, select false headers = .ok sections := by
  have each : ∀ role, ∃ part, Section.select false headers role = .ok part := by
    intro role
    unfold Section.select
    cases Section.header? role headers with
    | some header => exact ⟨_, rfl⟩
    | none => exact ⟨_, rfl⟩
  obtain ⟨text, textFound⟩ := each .text
  obtain ⟨symtab, symtabFound⟩ := each .symtab
  obtain ⟨strtab, strtabFound⟩ := each .strtab
  refine ⟨⟨text, symtab, strtab⟩, (select_eq_ok_iff _ _ _).mpr ?_⟩
  intro role
  cases role
  · exact textFound
  · exact symtabFound
  · exact strtabFound

/-- Requiring the sections only adds the complaint about the first that is absent. -/
theorem select_strict (headers : List SectionHeader) :
    select true headers =
      match Section.firstAbsent? headers with
      | some role => .error (.missingSection role)
      | none => select false headers := by
  simp only [Section.firstAbsent?, ← Section.isNone_header?, List.find?_cons, List.find?_nil,
    select, Section.select]
  cases Section.header? .text headers with
  | none => rfl
  | some text =>
    cases Section.header? .symtab headers with
    | none => rfl
    | some symtab =>
      cases Section.header? .strtab headers with
      | none => rfl
      | some strtab => rfl

theorem unmissed_check (sections : Sections) (length : Nat) :
    Unmissed (sections.check length) := by
  refine (unmissed_checkRange _ _ _).bind fun _ => ?_
  refine (unmissed_checkRange _ _ _).bind fun _ => ?_
  split
  · rintro role ⟨⟩
  · exact unmissed_ok _

end Sections

namespace Image

theorem magic_prefix_iff (bytes : Bytes) :
    magic <+: bytes.toList ↔ (bytes.extract 0 4).toList = magic := by
  rw [List.prefix_iff_eq_take, Array.toList_extract, List.extract_eq_take_drop, List.drop_zero]
  exact eq_comm

theorem ofBytes_eq_ok_iff (bytes : Bytes) (image : Image) :
    ofBytes bytes = .ok image ↔ magic <+: bytes.toList ∧ image = ⟨bytes⟩ := by
  rw [ofBytes, magic_prefix_iff]
  by_cases present : (bytes.extract 0 4).toList = magic
  · rw [if_pos present, Except.ok.injEq, eq_comm]
    exact (and_iff_right present).symm
  · rw [if_neg present]
    constructor
    · rintro ⟨⟩
    · rintro ⟨same, -⟩
      exact absurd same present

/-- All section headers of the file can be read. -/
structure Walkable (image : Image) : Prop where
  magic : magic <+: image.bytes.toList
  header : 0x34 ≤ image.size
  table : 0 < image.table.count.toNat → image.TableReadable

def headers (image : Image) : List SectionHeader :=
  (List.range image.table.count.toNat).map image.header

theorem absent_headers_iff (image : Image) (role : SectionRole) :
    (image.headers.all fun header => header.name ≠ role.name) = true ↔
      ∀ index, ¬image.Named role index := by
  rw [← Section.isNone_header?]
  rcases image.header?_headers role with ⟨index, named, found⟩ | ⟨unnamed, found⟩
  · rw [headers, found]
    exact ⟨by rintro ⟨⟩, fun unnamed => absurd named.1 (unnamed index)⟩
  · rw [headers, found]
    exact ⟨fun _ => unnamed, fun _ => rfl⟩

theorem firstAbsent?_headers_eq_some_iff (image : Image) (role : SectionRole) :
    Section.firstAbsent? image.headers = some role ↔
      (∀ index, ¬image.Named role index) ∧
        ∀ earlier ∈ role.before, ∃ index, image.Named earlier index := by
  have named (earlier : SectionRole) : (∃ index, image.Named earlier index) ↔
      (image.headers.all fun header => header.name ≠ earlier.name) = false := by
    rw [← Bool.not_eq_true, absent_headers_iff]
    simp
  simp only [named, ← absent_headers_iff]
  exact SectionRole.find?_eq_some_iff _ role

end Image

namespace Object

/-- The file with all of its section headers, before any section is looked for. -/
def walk (bytes : Bytes) : Except Error (Image × List SectionHeader) := do
  let image ← Image.ofBytes bytes
  let table ← HeaderTable.read image
  let headers ← (table.headers image).result
  return (image, headers)

def choose (strict : Bool) (walked : Image × List SectionHeader) : Except Error Object := do
  let sections ← Sections.select strict walked.2
  sections.check walked.1.size
  return ⟨walked.1, sections⟩

theorem parse_eq_walk (bytes : Bytes) (strict : Bool) :
    parse bytes strict = walk bytes >>= choose strict := by
  simp only [parse, walk, Sections.resolve, bind_assoc, pure_bind, choose]

theorem walk_eq_ok_iff (bytes : Bytes) (walked : Image × List SectionHeader) :
    walk bytes = .ok walked ↔
      Image.Walkable ⟨bytes⟩ ∧ walked = (⟨bytes⟩, Image.headers ⟨bytes⟩) := by
  simp only [walk, bind_eq_ok_iff, Image.ofBytes_eq_ok_iff, Image.read_table_eq_ok_iff]
  constructor
  · rintro ⟨_, ⟨magic, rfl⟩, _, ⟨long, rfl⟩, headers, read, made⟩
    cases made
    obtain ⟨readable, rfl⟩ := (Image.headers_result_eq_ok_iff headers).mp read
    exact ⟨⟨magic, long, readable⟩, rfl⟩
  · rintro ⟨⟨magic, long, readable⟩, rfl⟩
    exact ⟨_, ⟨magic, rfl⟩, _, ⟨long, rfl⟩, _,
      (Image.headers_result_eq_ok_iff _).mpr ⟨readable, rfl⟩, rfl⟩

theorem unmissed_walk (bytes : Bytes) : Unmissed (walk bytes) := by
  refine (Image.unmissed_ofBytes bytes).bind fun image => ?_
  refine (HeaderTable.unmissed_read image).bind fun table => ?_
  exact (table.unmissed_headers image).bind fun headers => unmissed_ok _

theorem unmissed_choose (walked : Image × List SectionHeader) : Unmissed (choose false walked) := by
  obtain ⟨sections, selected⟩ := Sections.exists_select_lenient walked.2
  rw [choose, selected]
  exact (sections.unmissed_check _).bind fun _ => unmissed_ok _

theorem unmissed_parse (bytes : Bytes) : Unmissed (parse bytes false) := by
  rw [parse_eq_walk]
  exact (unmissed_walk bytes).bind unmissed_choose

def missed? (bytes : Bytes) : Option SectionRole :=
  match walk bytes with
  | .ok walked => Section.firstAbsent? walked.2
  | .error _ => none

theorem missed?_eq_some_iff (bytes : Bytes) (role : SectionRole) :
    missed? bytes = some role ↔
      Image.Walkable ⟨bytes⟩ ∧ (∀ index, ¬Image.Named ⟨bytes⟩ role index) ∧
        ∀ earlier ∈ role.before, ∃ index, Image.Named ⟨bytes⟩ earlier index := by
  rw [← Image.firstAbsent?_headers_eq_some_iff]
  unfold missed?
  constructor
  · intro absent
    cases walked : walk bytes with
    | error error =>
      rw [walked] at absent
      cases absent
    | ok found =>
      obtain ⟨walkable, rfl⟩ := (walk_eq_ok_iff bytes found).mp walked
      rw [walked] at absent
      exact ⟨walkable, absent⟩
  · rintro ⟨walkable, absent⟩
    rw [(walk_eq_ok_iff bytes _).mpr ⟨walkable, rfl⟩]
    exact absent

theorem parse_strict (bytes : Bytes) :
    parse bytes true =
      match missed? bytes with
      | some role => .error (.missingSection role)
      | none => parse bytes false := by
  rw [parse_eq_walk, parse_eq_walk, missed?]
  cases walk bytes with
  | error error => rfl
  | ok walked =>
    simp only [Bind.bind, Except.bind, choose, Sections.select_strict]
    cases Section.firstAbsent? walked.2 with
    | some role => rfl
    | none => rfl

end Object

end RiscvListing.Elf
