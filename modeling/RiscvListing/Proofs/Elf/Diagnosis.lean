import RiscvListing.Proofs.Elf.Strictness

namespace RiscvListing.Elf

/-- A condition on a file, and the complaint about a file for which it does not hold. -/
structure Condition where
  holds : Prop
  error : Error

/-- The first condition of a list that does not hold. -/
inductive FirstViolated : List Condition → Condition → Prop where
  | here {condition : Condition} {rest : List Condition} (violated : ¬condition.holds) :
    FirstViolated (condition :: rest) condition
  | later {first condition : Condition} {rest : List Condition} (kept : first.holds)
    (violated : FirstViolated rest condition) : FirstViolated (first :: rest) condition

namespace FirstViolated

variable {conditions more : List Condition} {condition : Condition}

theorem mem (first : FirstViolated conditions condition) : condition ∈ conditions := by
  induction first with
  | here => exact List.mem_cons_self
  | later _ _ member => exact List.mem_cons_of_mem _ member

theorem not_holds (first : FirstViolated conditions condition) : ¬condition.holds := by
  induction first with
  | here violated => exact violated
  | later _ _ violated => exact violated

theorem exists_of_not_all (some : ¬∀ condition ∈ conditions, condition.holds) :
    ∃ condition, FirstViolated conditions condition := by
  induction conditions with
  | nil => exact absurd (by simp) some
  | cons head conditions ih =>
    by_cases kept : head.holds
    · obtain ⟨condition, first⟩ := ih fun all => some fun condition member => by
        rcases List.mem_cons.mp member with rfl | member
        · exact kept
        · exact all condition member
      exact ⟨condition, .later kept first⟩
    · exact ⟨head, .here kept⟩

theorem of_append (first : FirstViolated (conditions ++ more) condition) :
    FirstViolated conditions condition ∨
      (∀ earlier ∈ conditions, earlier.holds) ∧ FirstViolated more condition := by
  induction conditions with
  | nil => exact .inr ⟨by simp, first⟩
  | cons head conditions ih =>
    cases first with
    | here violated => exact .inl (.here violated)
    | later kept first =>
      rcases ih first with first | ⟨all, first⟩
      · exact .inl (.later kept first)
      · exact .inr ⟨List.forall_mem_cons.mpr ⟨kept, all⟩, first⟩

end FirstViolated

/-- A result that is a value when all conditions hold, and otherwise the complaint about the first
one that does not. -/
structure Diagnosed {α : Type} (result : Except Error α) (conditions : List Condition) :
    Prop where
  kept : (∀ condition ∈ conditions, condition.holds) → ∃ value, result = .ok value
  violated : ∀ condition, FirstViolated conditions condition → result = .error condition.error

namespace Diagnosed

variable {α β : Type} {result : Except Error α} {conditions more : List Condition}

theorem ok (value : α) : Diagnosed (.ok value) [] where
  kept _ := ⟨value, rfl⟩
  violated := by rintro condition ⟨⟩

theorem single {condition : Condition} (kept : condition.holds → ∃ value, result = .ok value)
    (violated : ¬condition.holds → result = .error condition.error) :
    Diagnosed result [condition] where
  kept all := kept (all condition List.mem_cons_self)
  violated := by
    intro other first
    cases first with
    | here bad => exact violated bad
    | later _ none => cases none

theorem bind {next : α → Except Error β} (first : Diagnosed result conditions)
    (second : ∀ value, result = .ok value → Diagnosed (next value) more) :
    Diagnosed (result >>= next) (conditions ++ more) where
  kept := by
    intro all
    rw [List.forall_mem_append] at all
    obtain ⟨value, read⟩ := first.kept all.1
    rw [read]
    exact (second value read).kept all.2
  violated := by
    intro condition bad
    rcases bad.of_append with bad | ⟨all, bad⟩
    · rw [first.violated condition bad]
      rfl
    · obtain ⟨value, read⟩ := first.kept all
      rw [read]
      exact (second value read).violated condition bad

theorem map (first : Diagnosed result conditions) (convert : α → β) :
    Diagnosed (result >>= fun value => .ok (convert value)) conditions := by
  have both := first.bind fun value _ => ok (convert value)
  rw [List.append_nil] at both
  exact both

theorem holds_of_eq_ok (diagnosed : Diagnosed result conditions) {value : α}
    (read : result = .ok value) : ∀ condition ∈ conditions, condition.holds := by
  apply Classical.byContradiction
  intro some
  obtain ⟨condition, first⟩ := FirstViolated.exists_of_not_all some
  rw [diagnosed.violated condition first] at read
  cases read

theorem eq_error_iff (diagnosed : Diagnosed result conditions) (error : Error) :
    result = .error error ↔
      ∃ condition, FirstViolated conditions condition ∧ condition.error = error := by
  constructor
  · intro failed
    by_cases all : ∀ condition ∈ conditions, condition.holds
    · obtain ⟨value, read⟩ := diagnosed.kept all
      rw [failed] at read
      cases read
    · obtain ⟨condition, first⟩ := FirstViolated.exists_of_not_all all
      rw [diagnosed.violated condition first] at failed
      exact ⟨condition, first, Except.error.inj failed⟩
  · rintro ⟨condition, first, rfl⟩
    exact diagnosed.violated condition first

end Diagnosed

theorem diagnosed_continueFrom {α : Type} {read : Nat → Except Error α}
    {condition : Nat → Condition} {index count : Nat}
    (each : ∀ place, index ≤ place → place < index + count →
      Diagnosed (read place) [condition place]) (done : List α) :
    Diagnosed (Scan.continueFrom read index count done).result
      ((List.range' index count).map condition) := by
  induction count generalizing index done with
  | zero => exact .ok _
  | succ count ih =>
    rw [Scan.continueFrom_result_succ, List.range'_succ, List.map_cons, ← List.singleton_append]
    refine (each index (Nat.le_refl _) (by omega)).bind fun value _ => ih ?_ _
    intro place after before
    exact each place (by omega) (by omega)

theorem diagnosed_items {α : Type} {read : Nat → Except Error α} {condition : Nat → Condition}
    {count : Nat} (each : ∀ index, index < count → Diagnosed (read index) [condition index]) :
    Diagnosed (Scan.items read count).result ((List.range count).map condition) := by
  rw [List.range_eq_range']
  apply diagnosed_continueFrom
  intro place _ before
  exact each place (by omega)

def Condition.range (start count length : Nat) : Condition :=
  ⟨start + count ≤ length, .truncated start count⟩

def Condition.nameStart (start length : Nat) : Condition :=
  ⟨start ≤ length, .invalidOffset start⟩

theorem diagnosed_checkRange (start count length : Nat) :
    Diagnosed (checkRange start count length) [.range start count length] :=
  .single (fun inside => ⟨(), if_pos inside⟩) fun outside => if_neg outside

namespace Image

variable (image : Image)

theorem diagnosed_halfAt (start : Nat) :
    Diagnosed (image.halfAt start) [.range start 2 image.size] :=
  (diagnosed_checkRange start 2 image.size).map _

theorem diagnosed_wordAt (start : Nat) :
    Diagnosed (image.wordAt start) [.range start 4 image.size] :=
  (diagnosed_checkRange start 4 image.size).map _

def magicCondition (bytes : Bytes) : Condition :=
  ⟨magic <+: bytes.toList, .invalidMagic⟩

theorem diagnosed_ofBytes (bytes : Bytes) :
    Diagnosed (ofBytes bytes) [magicCondition bytes] := by
  refine .single ?_ ?_
  · intro present
    exact ⟨⟨bytes⟩, if_pos ((magic_prefix_iff bytes).mp present)⟩
  · intro absent
    exact if_neg (mt (magic_prefix_iff bytes).mpr absent)

def fieldConditions : List Condition :=
  [.range 0x20 4 image.size, .range 0x30 2 image.size, .range 0x32 2 image.size]

theorem diagnosed_read : Diagnosed (HeaderTable.read image) image.fieldConditions := by
  refine (image.diagnosed_wordAt 0x20).bind fun offset _ => ?_
  refine (image.diagnosed_halfAt 0x30).bind fun count _ => ?_
  exact (image.diagnosed_halfAt 0x32).map _

def tableConditions : List Condition :=
  if 0 < image.table.count.toNat then
    .range image.table.offset.toNat (40 * image.table.count.toNat) image.size ::
    ⟨image.table.nameIndex.toNat < image.table.count.toNat,
      .invalidOffset (image.table.offset.toNat + 40 * image.table.nameIndex.toNat)⟩ ::
    (List.range image.table.count.toNat).map fun index =>
      .nameStart (image.sectionNameStart index) image.size
  else []

theorem diagnosed_namesOffset :
    Diagnosed (image.table.namesOffset image)
      [.range image.table.offset.toNat (40 * image.table.count.toNat) image.size,
        ⟨image.table.nameIndex.toNat < image.table.count.toNat,
          .invalidOffset (image.table.offset.toNat + 40 * image.table.nameIndex.toNat)⟩] := by
  have range := diagnosed_checkRange image.table.offset.toNat (40 * image.table.count.toNat)
    image.size
  rw [HeaderTable.namesOffset, HeaderTable.headerSize, Nat.mul_comm _ 40]
  refine range.bind fun _ inside => ?_
  have fits : image.table.offset.toNat + 40 * image.table.count.toNat ≤ image.size :=
    range.holds_of_eq_ok inside _ List.mem_cons_self
  refine .single ?_ ?_
  · intro known
    have entry := position_add_le fits known
    rw [if_pos (BitVec.lt_def.mpr known), (image.wordAt_eq_ok_iff _ _).mpr ⟨by omega, rfl⟩]
    exact ⟨_, rfl⟩
  · intro unknown
    rw [if_neg (mt BitVec.lt_def.mp unknown), HeaderTable.position, HeaderTable.headerSize,
      Nat.mul_comm]
    rfl

variable {image}

theorem diagnosed_headerAt {index : Nat}
    (inside : image.table.position index + 40 ≤ image.size) :
    Diagnosed (image.table.headerAt image image.namesStart index)
      [.nameStart (image.sectionNameStart index) image.size] := by
  refine .single ?_ ?_
  · intro start
    exact ⟨image.header index, (headerAt_eq_ok_iff inside _).mpr ⟨start, rfl⟩⟩
  · intro outside
    have offset := (image.wordAt_eq_ok_iff (image.table.position index) _).mpr ⟨by omega, rfl⟩
    have name := image.nameAt_of_lt (image.sectionNameStart index) (Nat.not_le.mp outside)
    rw [sectionNameStart] at name
    simp only [HeaderTable.headerAt, offset, Bind.bind, Except.bind, name]
    rfl

variable (image)

theorem diagnosed_headers :
    Diagnosed (image.table.headers image).result image.tableConditions := by
  by_cases empty : image.table.count = 0#16
  · have none : ¬0 < image.table.count.toNat := by
      rw [empty]
      decide
    rw [HeaderTable.headers, if_pos empty, tableConditions, if_neg none]
    exact .ok []
  · have filled : 0 < image.table.count.toNat := by
      apply Nat.pos_of_ne_zero
      intro zero
      exact empty (BitVec.eq_of_toNat_eq zero)
    rw [HeaderTable.headers_result empty, tableConditions, if_pos filled]
    refine image.diagnosed_namesOffset.bind fun names read => ?_
    obtain ⟨fits, -, rfl⟩ := (namesOffset_eq_ok_iff names).mp read
    apply diagnosed_items
    intro index within
    exact diagnosed_headerAt (position_add_le fits within)

def requiredConditions (strict : Bool) : List Condition :=
  if strict then
    [SectionRole.text, .symtab, .strtab].map fun role =>
      ⟨∃ index, image.Named role index, .missingSection role⟩
  else []

theorem diagnosed_select_strict (role : SectionRole) :
    Diagnosed
      (Section.select true ((List.range image.table.count.toNat).map image.header) role)
      [⟨∃ index, image.Named role index, .missingSection role⟩] := by
  rw [Section.select]
  rcases image.header?_headers role with ⟨index, named, found⟩ | ⟨unnamed, found⟩
  · rw [found]
    exact .single (fun _ => ⟨_, rfl⟩) fun absent => absurd ⟨index, named.1⟩ absent
  · rw [found]
    refine .single ?_ fun _ => rfl
    rintro ⟨index, named⟩
    exact absurd named (unnamed index)

theorem diagnosed_select (strict : Bool) :
    Diagnosed
      (Sections.select strict ((List.range image.table.count.toNat).map image.header))
      (image.requiredConditions strict) := by
  cases strict with
  | false =>
    obtain ⟨sections, selected⟩ := Sections.exists_select_lenient
      ((List.range image.table.count.toNat).map image.header)
    rw [selected]
    exact .ok sections
  | true =>
    refine (image.diagnosed_select_strict .text).bind fun text _ => ?_
    refine (image.diagnosed_select_strict .symtab).bind fun symtab _ => ?_
    exact (image.diagnosed_select_strict .strtab).map _

/-- The section that the last header with its name describes, which is empty if there is none. -/
def chosen (role : SectionRole) : Section :=
  match (List.range image.table.count.toNat).reverse.find? fun index =>
    image.sectionName index = role.name with
  | some index => image.sectionAt (image.table.position index) role
  | none => .empty role

theorem chosen_eq (role : SectionRole) :
    image.chosen role =
      match Section.header? role ((List.range image.table.count.toNat).map image.header) with
      | some header => Section.ofHeader role header
      | none => .empty role := by
  rw [chosen, Section.header?, ← List.map_reverse, List.find?_map]
  have same : ((fun header : SectionHeader => header.name == role.name) ∘ image.header) =
      fun index => decide (image.sectionName index = role.name) := by
    funext index
    rw [Function.comp_apply, Bool.eq_iff_iff, beq_iff_eq, decide_eq_true_eq]
    rfl
  rw [same]
  cases (List.range image.table.count.toNat).reverse.find? fun index =>
      decide (image.sectionName index = role.name) with
  | none => rfl
  | some index => exact (image.ofHeader_header role index).symm

theorem eq_chosen_of_select {strict : Bool} {role : SectionRole} {part : Section}
    (selected : Section.select strict
      ((List.range image.table.count.toNat).map image.header) role = .ok part) :
    part = image.chosen role := by
  rw [chosen_eq]
  rw [Section.select] at selected
  cases found : Section.header? role ((List.range image.table.count.toNat).map image.header) with
  | some header =>
    rw [found] at selected
    exact (Except.ok.inj selected).symm
  | none =>
    rw [found] at selected
    cases strict with
    | true => cases selected
    | false => exact (Except.ok.inj selected).symm

def rangeConditions : List Condition :=
  let text := image.chosen .text
  let symtab := image.chosen .symtab
  [.range text.offset.toNat text.size.toNat image.size,
    .range symtab.offset.toNat symtab.size.toNat image.size,
    ⟨16 ∣ symtab.size.toNat, .misalignedSection .symtab symtab.size.toNat 16⟩]

theorem diagnosed_check {sections : Sections} (text : sections.text = image.chosen .text)
    (symtab : sections.symtab = image.chosen .symtab) :
    Diagnosed (sections.check image.size) image.rangeConditions := by
  rw [Sections.check, text, symtab, Sections.symbolSize]
  refine (diagnosed_checkRange _ _ _).bind fun _ _ => ?_
  refine (diagnosed_checkRange _ _ _).bind fun _ _ => ?_
  refine .single ?_ ?_
  · intro whole
    rw [if_neg (not_not_intro (Nat.mod_eq_zero_of_dvd whole))]
    exact ⟨(), rfl⟩
  · intro ragged
    rw [if_pos (mt Nat.dvd_of_mod_eq_zero ragged)]
    rfl

theorem diagnosed_resolve (strict : Bool) :
    Diagnosed (Sections.resolve image strict)
      (image.fieldConditions ++ (image.tableConditions ++
        (image.requiredConditions strict ++ image.rangeConditions))) := by
  refine image.diagnosed_read.bind fun table read => ?_
  obtain ⟨-, rfl⟩ := (image.read_table_eq_ok_iff table).mp read
  refine image.diagnosed_headers.bind fun headers found => ?_
  obtain ⟨-, rfl⟩ := (headers_result_eq_ok_iff headers).mp found
  refine (image.diagnosed_select strict).bind fun sections selected => ?_
  have part := (Sections.select_eq_ok_iff _ _ _).mp selected
  exact (image.diagnosed_check (image.eq_chosen_of_select (part .text))
    (image.eq_chosen_of_select (part .symtab))).map _

end Image

/-- All that is required of a file for its sections to be found, in the order in which it is
looked at. -/
def Object.conditions (bytes : Bytes) (strict : Bool) : List Condition :=
  Image.magicCondition bytes :: (Image.fieldConditions ⟨bytes⟩ ++ (Image.tableConditions ⟨bytes⟩ ++
    (Image.requiredConditions ⟨bytes⟩ strict ++ Image.rangeConditions ⟨bytes⟩)))

inductive Error.Structural : Error → Prop where
  | offset (offset : Nat) : Structural (.invalidOffset offset)
  | missing (role : SectionRole) : Structural (.missingSection role)
  | misaligned (size : Nat) : Structural (.misalignedSection .symtab size 16)

theorem Object.mem_conditions {bytes : Bytes} {strict : Bool} {condition : Condition}
    (member : condition ∈ conditions bytes strict) :
    condition = Image.magicCondition bytes ∨
      (∃ start count, condition = .range start count bytes.size) ∨ condition.error.Structural := by
  simp only [conditions, List.mem_cons, List.mem_append] at member
  rcases member with rfl | fields | table | required | ranges
  · exact .inl rfl
  · simp only [Image.fieldConditions, List.mem_cons, List.not_mem_nil, or_false] at fields
    rcases fields with rfl | rfl | rfl
    all_goals exact .inr (.inl ⟨_, _, rfl⟩)
  · rw [Image.tableConditions] at table
    split at table
    · simp only [List.mem_cons, List.mem_map] at table
      rcases table with rfl | rfl | ⟨index, -, rfl⟩
      · exact .inr (.inl ⟨_, _, rfl⟩)
      · exact .inr (.inr (.offset _))
      · exact .inr (.inr (.offset _))
    · cases table
  · rw [Image.requiredConditions] at required
    split at required
    · obtain ⟨role, -, rfl⟩ := List.mem_map.mp required
      exact .inr (.inr (.missing role))
    · cases required
  · simp only [Image.rangeConditions, List.mem_cons, List.not_mem_nil, or_false] at ranges
    rcases ranges with rfl | rfl | rfl
    · exact .inr (.inl ⟨_, _, rfl⟩)
    · exact .inr (.inl ⟨_, _, rfl⟩)
    · exact .inr (.inr (.misaligned _))

theorem Object.diagnosed_parse (bytes : Bytes) (strict : Bool) :
    Diagnosed (parse bytes strict) (conditions bytes strict) := by
  refine (Image.diagnosed_ofBytes bytes).bind fun image read => ?_
  obtain rfl : image = ⟨bytes⟩ := by
    unfold Image.ofBytes at read
    split at read
    · exact (Except.ok.inj read).symm
    · cases read
  exact (Image.diagnosed_resolve ⟨bytes⟩ strict).map _

theorem Object.parse_eq_ok_iff_conditions (bytes : Bytes) (strict : Bool) :
    (∃ object, parse bytes strict = .ok object) ↔
      ∀ condition ∈ conditions bytes strict, condition.holds := by
  have diagnosed := diagnosed_parse bytes strict
  constructor
  · rintro ⟨object, parsed⟩
    exact diagnosed.holds_of_eq_ok parsed
  · exact diagnosed.kept

theorem Object.lt_of_parse_truncated {bytes : Bytes} {strict : Bool} {offset count : Nat}
    (failed : parse bytes strict = .error (.truncated offset count)) :
    bytes.size < offset + count := by
  obtain ⟨condition, first, same⟩ := ((diagnosed_parse bytes strict).eq_error_iff _).mp failed
  have violated := first.not_holds
  rcases mem_conditions first.mem with rfl | ⟨start, length, rfl⟩ | other
  · cases same
  · cases same
    exact Nat.not_le.mp violated
  · rw [same] at other
    cases other

theorem Object.parse_eq_invalidMagic_iff (bytes : Bytes) (strict : Bool) :
    parse bytes strict = .error .invalidMagic ↔ ¬Image.magic <+: bytes.toList := by
  rw [(diagnosed_parse bytes strict).eq_error_iff]
  constructor
  · rintro ⟨condition, first, same⟩
    have violated := first.not_holds
    rcases mem_conditions first.mem with rfl | ⟨start, length, rfl⟩ | other
    · exact violated
    · cases same
    · rw [same] at other
      cases other
  · intro absent
    exact ⟨Image.magicCondition bytes, .here absent, rfl⟩

end RiscvListing.Elf
