import RiscvListing.Proofs.Elf.Field

namespace RiscvListing.Elf

namespace Image

def table (image : Image) : HeaderTable :=
  ⟨image.word 0x20, image.half 0x30, image.half 0x32⟩

def namesStart (image : Image) : Nat :=
  (image.word (image.table.position image.table.nameIndex.toNat + 16)).toNat

def sectionNameStart (image : Image) (index : Nat) : Nat :=
  image.namesStart + (image.word (image.table.position index)).toNat

def sectionName (image : Image) (index : Nat) : String :=
  byteText (image.nameBytes (image.sectionNameStart index))

def Named (image : Image) (role : SectionRole) (index : Nat) : Prop :=
  index < image.table.count.toNat ∧ image.sectionName index = role.name

/-- Of several headers with the name of a section the last one describes it. -/
def LastNamed (image : Image) (role : SectionRole) (index : Nat) : Prop :=
  image.Named role index ∧ ∀ later, index < later → ¬image.Named role later

def sectionAt (image : Image) (entry : Nat) : SectionRole → Section
  | .text => ⟨.text, image.word (entry + 16), image.word (entry + 20), image.word (entry + 12)⟩
  | .symtab => ⟨.symtab, image.word (entry + 16), image.word (entry + 20), 0⟩
  | .strtab => ⟨.strtab, image.word (entry + 16), 0, 0⟩

/-- The section headers lie in the file, and so do the places where their names start. -/
structure TableReadable (image : Image) : Prop where
  headers : image.table.offset.toNat + 40 * image.table.count.toNat ≤ image.size
  nameIndex : image.table.nameIndex.toNat < image.table.count.toNat
  names : ∀ index, index < image.table.count.toNat → image.sectionNameStart index ≤ image.size

/-- The conditions on a file for its sections to be found. -/
structure Resolvable (image : Image) (strict : Bool) : Prop where
  header : 0x34 ≤ image.size
  table : 0 < image.table.count.toNat → image.TableReadable
  required : strict = true → ∀ role, ∃ index, image.Named role index
  text : ∀ index, image.LastNamed .text index →
    (image.word (image.table.position index + 16)).toNat +
      (image.word (image.table.position index + 20)).toNat ≤ image.size
  symtab : ∀ index, image.LastNamed .symtab index →
    (image.word (image.table.position index + 16)).toNat +
      (image.word (image.table.position index + 20)).toNat ≤ image.size
  records : ∀ index, image.LastNamed .symtab index →
    16 ∣ (image.word (image.table.position index + 20)).toNat

def header (image : Image) (index : Nat) : SectionHeader :=
  ⟨image.sectionName index, image.word (image.table.position index + 12),
    image.word (image.table.position index + 16), image.word (image.table.position index + 20)⟩

variable (image : Image)

theorem ofHeader_header (role : SectionRole) (index : Nat) :
    Section.ofHeader role (image.header index) =
      image.sectionAt (image.table.position index) role := by
  cases role <;> rfl

theorem read_table_eq_ok_iff (table : HeaderTable) :
    HeaderTable.read image = .ok table ↔ 0x34 ≤ image.size ∧ table = image.table := by
  simp only [HeaderTable.read, bind_eq_ok_iff, wordAt_eq_ok_iff, halfAt_eq_ok_iff]
  constructor
  · intro found
    obtain ⟨offset, ⟨-, rfl⟩, count, ⟨-, rfl⟩, nameIndex, ⟨inside, rfl⟩, made⟩ := found
    exact ⟨inside, (Except.ok.inj made).symm⟩
  · intro found
    obtain ⟨inside, rfl⟩ := found
    exact ⟨_, ⟨by omega, rfl⟩, _, ⟨by omega, rfl⟩, _, ⟨inside, rfl⟩, rfl⟩

variable {image}

theorem position_add_le {index : Nat}
    (fits : image.table.offset.toNat + 40 * image.table.count.toNat ≤ image.size)
    (within : index < image.table.count.toNat) : image.table.position index + 40 ≤ image.size := by
  rw [HeaderTable.position, HeaderTable.headerSize]
  omega

theorem namesOffset_eq_ok_iff (names : Nat) :
    image.table.namesOffset image = .ok names ↔
      image.table.offset.toNat + 40 * image.table.count.toNat ≤ image.size ∧
        image.table.nameIndex.toNat < image.table.count.toNat ∧ names = image.namesStart := by
  rw [HeaderTable.namesOffset, checkRange_bind_eq_ok_iff, HeaderTable.headerSize, Nat.mul_comm]
  refine and_congr_right fun fits => ?_
  by_cases known : image.table.nameIndex.toNat < image.table.count.toNat
  · have inside := position_add_le fits known
    rw [if_pos (BitVec.lt_def.mpr known), bind_eq_ok_iff]
    simp only [wordAt_eq_ok_iff]
    constructor
    · intro found
      obtain ⟨_, ⟨-, rfl⟩, made⟩ := found
      exact ⟨known, (Except.ok.inj made).symm⟩
    · intro found
      exact ⟨_, ⟨by omega, rfl⟩, congrArg Except.ok found.2.symm⟩
  · rw [if_neg (mt BitVec.lt_def.mp known)]
    constructor
    · intro found
      cases found
    · intro found
      exact absurd found.1 known

theorem headerAt_eq_ok_iff {index : Nat} (inside : image.table.position index + 40 ≤ image.size)
    (header : SectionHeader) :
    image.table.headerAt image image.namesStart index = .ok header ↔
      image.sectionNameStart index ≤ image.size ∧ header = image.header index := by
  simp only [HeaderTable.headerAt, bind_eq_ok_iff, wordAt_eq_ok_iff, nameAt_eq_ok_iff]
  constructor
  · intro found
    obtain ⟨_, ⟨-, rfl⟩, _, ⟨start, rfl⟩, _, ⟨-, rfl⟩, _, ⟨-, rfl⟩, _, ⟨-, rfl⟩, made⟩ := found
    exact ⟨start, (Except.ok.inj made).symm⟩
  · intro found
    obtain ⟨start, rfl⟩ := found
    exact ⟨_, ⟨by omega, rfl⟩, _, ⟨start, rfl⟩, _, ⟨by omega, rfl⟩, _, ⟨by omega, rfl⟩, _,
      ⟨by omega, rfl⟩, rfl⟩

theorem headerItems_eq_ok_iff
    (fits : image.table.offset.toNat + 40 * image.table.count.toNat ≤ image.size)
    (known : image.table.nameIndex.toNat < image.table.count.toNat)
    (headers : List SectionHeader) :
    (Scan.items (image.table.headerAt image image.namesStart)
        image.table.count.toNat).result = .ok headers ↔
      (0 < image.table.count.toNat → image.TableReadable) ∧
        headers = (List.range image.table.count.toNat).map image.header := by
  rw [Scan.items_result_eq_ok_iff]
  constructor
  · intro found
    obtain ⟨length, reads⟩ := found
    have each : ∀ (index : Nat) (inside : index < headers.length),
        image.sectionNameStart index ≤ image.size ∧ headers[index] = image.header index := by
      intro index inside
      exact (headerAt_eq_ok_iff (position_add_le fits (by omega)) _).mp (reads index inside)
    refine ⟨fun _ => ⟨fits, known, ?_⟩, ?_⟩
    · intro index within
      exact (each index (by omega)).1
    · apply List.ext_getElem
      · simp [length]
      · intro index inside _
        simp [(each index inside).2]
  · intro found
    obtain ⟨readable, rfl⟩ := found
    refine ⟨by simp, ?_⟩
    intro index inside
    simp only [List.length_map, List.length_range] at inside
    have names := (readable (by omega)).names index inside
    rw [List.getElem_map, List.getElem_range]
    exact (headerAt_eq_ok_iff (position_add_le fits inside) _).mpr ⟨names, rfl⟩

theorem headers_result_eq_ok_iff (headers : List SectionHeader) :
    (image.table.headers image).result = .ok headers ↔
      (0 < image.table.count.toNat → image.TableReadable) ∧
        headers = (List.range image.table.count.toNat).map image.header := by
  unfold HeaderTable.headers
  split
  next empty =>
    simp [empty, Scan.result, eq_comm]
  next filled =>
    have positive : 0 < image.table.count.toNat := by
      apply Nat.pos_of_ne_zero
      intro zero
      exact filled (BitVec.eq_of_toNat_eq zero)
    cases read : image.table.namesOffset image with
    | error error =>
      constructor
      · intro found
        cases found
      · intro found
        have readable := found.1 positive
        have names := (namesOffset_eq_ok_iff _).mpr ⟨readable.headers, readable.nameIndex, rfl⟩
        rw [read] at names
        cases names
    | ok names =>
      obtain ⟨fits, known, rfl⟩ := (namesOffset_eq_ok_iff _).mp read
      exact headerItems_eq_ok_iff fits known headers

theorem header?_range (role : SectionRole) (header : Nat → SectionHeader) (count : Nat) :
    (∃ index, index < count ∧ (header index).name = role.name ∧
      (∀ later, index < later → later < count → (header later).name ≠ role.name) ∧
      Section.header? role ((List.range count).map header) = some (header index)) ∨
    ((∀ index, index < count → (header index).name ≠ role.name) ∧
      Section.header? role ((List.range count).map header) = none) := by
  induction count with
  | zero => exact .inr ⟨by omega, rfl⟩
  | succ count ih =>
    have step : Section.header? role ((List.range (count + 1)).map header) =
        if (header count).name = role.name then some (header count)
        else Section.header? role ((List.range count).map header) := by
      simp only [Section.header?, List.range_succ, List.map_append, List.map_cons, List.map_nil,
        List.reverse_append, List.reverse_cons, List.reverse_nil, List.nil_append,
        List.cons_append, List.find?_cons]
      split <;> simp_all
    by_cases named : (header count).name = role.name
    · refine .inl ⟨count, Nat.lt_succ_self count, named, ?_, by rw [step, if_pos named]⟩
      intro later after before
      omega
    · rw [step, if_neg named]
      rcases ih with ⟨index, inside, same, last, found⟩ | ⟨absent, found⟩
      · refine .inl ⟨index, by omega, same, ?_, found⟩
        intro later after before
        rcases Nat.lt_succ_iff_lt_or_eq.mp before with before | rfl
        · exact last later after before
        · exact named
      · refine .inr ⟨?_, found⟩
        intro index before
        rcases Nat.lt_succ_iff_lt_or_eq.mp before with before | rfl
        · exact absent index before
        · exact named

theorem header?_headers (image : Image) (role : SectionRole) :
    (∃ index, image.LastNamed role index ∧
      Section.header? role ((List.range image.table.count.toNat).map image.header) =
        some (image.header index)) ∨
    ((∀ index, ¬image.Named role index) ∧
      Section.header? role ((List.range image.table.count.toNat).map image.header) = none) := by
  rcases header?_range role image.header image.table.count.toNat with
    ⟨index, inside, same, last, found⟩ | ⟨absent, found⟩
  · refine .inl ⟨index, ⟨⟨inside, same⟩, ?_⟩, found⟩
    intro later after named
    exact last later after named.1 named.2
  · refine .inr ⟨?_, found⟩
    intro index named
    exact absent index named.1 named.2

theorem LastNamed.unique {role : SectionRole} {first second : Nat}
    (named : image.LastNamed role first) (other : image.LastNamed role second) :
    first = second := by
  rcases Nat.lt_trichotomy first second with before | same | after
  · exact absurd other.1 (named.2 second before)
  · exact same
  · exact absurd named.1 (other.2 first after)

inductive Selects (image : Image) (strict : Bool) (role : SectionRole) : Section → Prop where
  | last (index : Nat) (named : image.LastNamed role index) :
    Selects image strict role (image.sectionAt (image.table.position index) role)
  | absent (unnamed : ∀ index, ¬image.Named role index) (lenient : strict = false) :
    Selects image strict role (Section.empty role)

theorem Selects.eq_sectionAt {strict : Bool} {role : SectionRole} {part : Section}
    (selected : image.Selects strict role part) {index : Nat}
    (named : image.LastNamed role index) :
    part = image.sectionAt (image.table.position index) role := by
  cases selected with
  | last other also => rw [named.unique also]
  | absent unnamed => exact absurd named.1 (unnamed index)

theorem Selects.eq_empty {strict : Bool} {role : SectionRole} {part : Section}
    (selected : image.Selects strict role part) (unnamed : ∀ index, ¬image.Named role index) :
    strict = false ∧ part = Section.empty role := by
  cases selected with
  | last index named => exact absurd named.1 (unnamed index)
  | absent unnamed lenient => exact ⟨lenient, rfl⟩

theorem Selects.named {role : SectionRole} {part : Section}
    (selected : image.Selects true role part) : ∃ index, image.Named role index := by
  cases selected with
  | last index named => exact ⟨index, named.1⟩
  | absent unnamed lenient => cases lenient

theorem select_eq_ok_iff (strict : Bool) (role : SectionRole) (part : Section) :
    Section.select strict ((List.range image.table.count.toNat).map image.header) role = .ok part ↔
      image.Selects strict role part := by
  rw [Section.select]
  rcases image.header?_headers role with ⟨index, named, found⟩ | ⟨unnamed, found⟩
  · simp only [found, ofHeader_header, Except.ok.injEq]
    constructor
    · rintro rfl
      exact .last index named
    · intro selected
      exact (selected.eq_sectionAt named).symm
  · simp only [found]
    constructor
    · intro selected
      cases strict with
      | true => cases selected
      | false =>
        cases selected
        exact .absent unnamed rfl
    · intro selected
      obtain ⟨rfl, rfl⟩ := selected.eq_empty unnamed
      rfl

theorem exists_selects {strict : Bool} {role : SectionRole}
    (required : strict = true → ∃ index, image.Named role index) :
    ∃ part, image.Selects strict role part := by
  rcases image.header?_headers role with ⟨index, named, -⟩ | ⟨unnamed, -⟩
  · exact ⟨_, .last index named⟩
  · refine ⟨_, .absent unnamed ?_⟩
    cases strict with
    | false => rfl
    | true =>
      obtain ⟨index, named⟩ := required rfl
      exact absurd named (unnamed index)

end Image

namespace Sections

def part (sections : Sections) : SectionRole → Section
  | .text => sections.text
  | .symtab => sections.symtab
  | .strtab => sections.strtab

theorem select_eq_ok_iff (strict : Bool) (headers : List SectionHeader) (sections : Sections) :
    select strict headers = .ok sections ↔
      ∀ role, Section.select strict headers role = .ok (sections.part role) := by
  simp only [select, bind_eq_ok_iff]
  constructor
  · intro found
    obtain ⟨text, textFound, symtab, symtabFound, strtab, strtabFound, made⟩ := found
    cases made
    intro role
    cases role
    · exact textFound
    · exact symtabFound
    · exact strtabFound
  · intro found
    exact ⟨_, found .text, _, found .symtab, _, found .strtab, rfl⟩

theorem check_eq_ok_iff (sections : Sections) (length : Nat) (done : Unit) :
    sections.check length = .ok done ↔
      sections.text.stop ≤ length ∧ sections.symtab.stop ≤ length ∧
        16 ∣ sections.symtab.size.toNat := by
  rw [check, checkRange_bind_eq_ok_iff, checkRange_bind_eq_ok_iff]
  refine and_congr_right fun _ => and_congr_right fun _ => ?_
  rw [symbolSize, Nat.dvd_iff_mod_eq_zero]
  by_cases whole : sections.symtab.size.toNat % 16 = 0
  · simp [whole, Pure.pure, Except.pure]
  · simp [whole, throw, throwThe, MonadExceptOf.throw]

theorem resolve_eq_ok_iff_select (image : Image) (strict : Bool) (sections : Sections) :
    resolve image strict = .ok sections ↔
      0x34 ≤ image.size ∧ (0 < image.table.count.toNat → image.TableReadable) ∧
        select strict ((List.range image.table.count.toNat).map image.header) = .ok sections ∧
        sections.text.stop ≤ image.size ∧ sections.symtab.stop ≤ image.size ∧
        16 ∣ sections.symtab.size.toNat := by
  simp only [resolve, bind_eq_ok_iff, Image.read_table_eq_ok_iff]
  constructor
  · intro found
    obtain ⟨_, ⟨long, rfl⟩, headers, read, chosen, selected, _, checked, made⟩ := found
    cases made
    obtain ⟨readable, rfl⟩ := (Image.headers_result_eq_ok_iff headers).mp read
    exact ⟨long, readable, selected, (check_eq_ok_iff _ _ _).mp checked⟩
  · intro found
    obtain ⟨long, readable, selected, checked⟩ := found
    exact ⟨_, ⟨long, rfl⟩, _, (Image.headers_result_eq_ok_iff _).mpr ⟨readable, rfl⟩, sections,
      selected, (), (check_eq_ok_iff _ _ _).mpr checked, rfl⟩

theorem resolve_eq_ok_iff (image : Image) (strict : Bool) (sections : Sections) :
    resolve image strict = .ok sections ↔
      0x34 ≤ image.size ∧ (0 < image.table.count.toNat → image.TableReadable) ∧
        (∀ role, image.Selects strict role (sections.part role)) ∧
        sections.text.stop ≤ image.size ∧ sections.symtab.stop ≤ image.size ∧
        16 ∣ sections.symtab.size.toNat := by
  rw [resolve_eq_ok_iff_select, select_eq_ok_iff]
  simp only [Image.select_eq_ok_iff]

end Sections

namespace Image

variable {image : Image} {strict : Bool}

theorem resolvable_of_resolve {sections : Sections}
    (resolved : Sections.resolve image strict = .ok sections) : image.Resolvable strict := by
  obtain ⟨long, readable, selected, textInside, symtabInside, whole⟩ :=
    (Sections.resolve_eq_ok_iff _ _ _).mp resolved
  refine ⟨long, readable, ?_, ?_, ?_, ?_⟩
  · rintro rfl role
    exact (selected role).named
  · intro index named
    have text : sections.text = _ := (selected .text).eq_sectionAt named
    rw [text] at textInside
    exact textInside
  · intro index named
    have symtab : sections.symtab = _ := (selected .symtab).eq_sectionAt named
    rw [symtab] at symtabInside
    exact symtabInside
  · intro index named
    have symtab : sections.symtab = _ := (selected .symtab).eq_sectionAt named
    rw [symtab] at whole
    exact whole

theorem exists_resolve (resolvable : image.Resolvable strict) :
    ∃ sections, Sections.resolve image strict = .ok sections := by
  obtain ⟨text, textSelected⟩ := exists_selects fun needed => resolvable.required needed .text
  obtain ⟨symtab, symtabSelected⟩ :=
    exists_selects fun needed => resolvable.required needed .symtab
  obtain ⟨strtab, strtabSelected⟩ :=
    exists_selects fun needed => resolvable.required needed .strtab
  have selected : ∀ role,
      image.Selects strict role (Sections.part ⟨text, symtab, strtab⟩ role) := by
    intro role
    cases role
    · exact textSelected
    · exact symtabSelected
    · exact strtabSelected
  have textInside : text.stop ≤ image.size := by
    cases textSelected with
    | last index named => exact resolvable.text index named
    | absent => exact Nat.zero_le _
  have symtabInside : symtab.stop ≤ image.size ∧ 16 ∣ symtab.size.toNat := by
    cases symtabSelected with
    | last index named => exact ⟨resolvable.symtab index named, resolvable.records index named⟩
    | absent => exact ⟨Nat.zero_le _, Nat.dvd_zero 16⟩
  exact ⟨_, (Sections.resolve_eq_ok_iff _ _ _).mpr ⟨resolvable.header, resolvable.table, selected,
    textInside, symtabInside⟩⟩

/-- The sections of a file are found exactly under the stated conditions, and each of them is the
one that the last header with its name describes or, where none has its name, empty. -/
theorem resolve_exactly (image : Image) (strict : Bool) :
    ((∃ sections, Sections.resolve image strict = .ok sections) ↔ image.Resolvable strict) ∧
      ∀ sections, Sections.resolve image strict = .ok sections → ∀ role,
        (∀ index, image.LastNamed role index →
          sections.part role = image.sectionAt (image.table.position index) role) ∧
        ((∀ index, ¬image.Named role index) →
          strict = false ∧ sections.part role = Section.empty role) := by
  refine ⟨⟨?_, exists_resolve⟩, ?_⟩
  · rintro ⟨sections, resolved⟩
    exact resolvable_of_resolve resolved
  · intro sections resolved role
    obtain ⟨-, -, selected, -⟩ := (Sections.resolve_eq_ok_iff _ _ _).mp resolved
    exact ⟨fun index => (selected role).eq_sectionAt, (selected role).eq_empty⟩

end Image

end RiscvListing.Elf
