import RiscvListing.Proofs.Elf.Code
import RiscvListing.Proofs.Elf.Resolution

namespace RiscvListing.Elf

def Image.symbolAt (image : Image) (names position : Nat) : Symbol :=
  ⟨byteText (image.nameBytes (names + (image.word position).toNat)), image.word (position + 4),
    image.word (position + 8), image.byte (position + 12), image.byte (position + 13),
    image.half (position + 14)⟩

namespace Symbol

variable {image : Image} {strtab : Section} {position : Nat}

theorem read_of_le (inside : position + 16 ≤ image.size)
    (named : strtab.offset.toNat + (image.word position).toNat ≤ image.size) :
    read image strtab position = .ok (image.symbolAt strtab.offset.toNat position) := by
  simp only [read, bind_eq_ok_iff, Image.wordAt_eq_ok_iff, Image.nameAt_eq_ok_iff,
    Image.byteAt_eq_ok_iff, Image.halfAt_eq_ok_iff]
  exact ⟨_, ⟨by omega, rfl⟩, _, ⟨named, rfl⟩, _, ⟨by omega, rfl⟩, _, ⟨by omega, rfl⟩, _,
    ⟨by omega, rfl⟩, _, ⟨by omega, rfl⟩, _, ⟨by omega, rfl⟩, rfl⟩

theorem read_of_lt (inside : position + 16 ≤ image.size)
    (unnamed : image.size < strtab.offset.toNat + (image.word position).toNat) :
    read image strtab position =
      .error (.invalidOffset (strtab.offset.toNat + (image.word position).toNat)) := by
  have offset := (image.wordAt_eq_ok_iff position _).mpr ⟨by omega, rfl⟩
  rw [read, offset]
  simp only [Bind.bind, Except.bind, image.nameAt_of_lt _ unnamed]

end Symbol

namespace Object

/-- What a file is checked for before anything but its headers is read. -/
structure Checked (object : Object) : Prop where
  text : object.sections.text.stop ≤ object.image.size
  symtab : object.sections.symtab.stop ≤ object.image.size
  records : 16 ∣ object.sections.symtab.size.toNat

theorem parse_eq_ok_iff (bytes : Bytes) (strict : Bool) (object : Object) :
    parse bytes strict = .ok object ↔
      (bytes.extract 0 4).toList = Image.magic ∧ object.image = ⟨bytes⟩ ∧
        Sections.resolve object.image strict = .ok object.sections := by
  rw [parse, Image.ofBytes]
  by_cases magic : (bytes.extract 0 4).toList = Image.magic
  · rw [if_pos magic]
    simp only [bind_eq_ok_iff, Except.ok.injEq, exists_eq_left']
    constructor
    · intro found
      obtain ⟨sections, resolved, made⟩ := found
      cases made
      exact ⟨magic, rfl, resolved⟩
    · intro found
      obtain ⟨-, same, resolved⟩ := found
      refine ⟨object.sections, same ▸ resolved, ?_⟩
      rw [← same]
      rfl
  · rw [if_neg magic]
    constructor
    · intro found
      cases found
    · intro found
      exact absurd found.1 magic

theorem checked_of_parse {bytes : Bytes} {strict : Bool} {object : Object}
    (parsed : parse bytes strict = .ok object) : object.Checked := by
  obtain ⟨-, -, resolved⟩ := (parse_eq_ok_iff _ _ _).mp parsed
  obtain ⟨-, -, -, text, symtab, records⟩ := (Sections.resolve_eq_ok_iff _ _ _).mp resolved
  exact ⟨text, symtab, records⟩

def symbolCount (object : Object) : Nat :=
  object.sections.symtab.size.toNat / 16

def symbolPosition (object : Object) (index : Nat) : Nat :=
  object.sections.symtab.offset.toNat + 16 * index

def symbolNameStart (object : Object) (index : Nat) : Nat :=
  object.sections.strtab.offset.toNat + (object.image.word (object.symbolPosition index)).toNat

/-- The name of the symbol would start behind the end of the file. -/
def Dangling (object : Object) (index : Nat) : Prop :=
  index < object.symbolCount ∧ object.image.size < object.symbolNameStart index

def FirstDangling (object : Object) (index : Nat) : Prop :=
  object.Dangling index ∧ ∀ earlier, earlier < index → ¬object.Dangling earlier

variable {object : Object}

theorem exists_firstDangling {index : Nat} (dangling : object.Dangling index) :
    ∃ first, object.FirstDangling first := by
  induction index using Nat.strongRecOn with
  | ind index ih =>
    by_cases before : ∃ earlier, earlier < index ∧ object.Dangling earlier
    · obtain ⟨earlier, less, also⟩ := before
      exact ih earlier less also
    · refine ⟨index, dangling, ?_⟩
      intro earlier less also
      exact before ⟨earlier, less, also⟩

theorem symbolPosition_add_le (checked : object.Checked) {index : Nat}
    (inside : index < object.symbolCount) :
    object.symbolPosition index + 16 ≤ object.image.size := by
  have symtab := checked.symtab
  rw [Section.stop] at symtab
  rw [symbolCount] at inside
  rw [symbolPosition]
  omega

theorem symbols_eq (checked : object.Checked) :
    object.symbols =
      (Scan.items (fun index =>
        Symbol.read object.image object.sections.strtab (object.symbolPosition index))
        object.symbolCount).result := by
  have count : (object.sections.symtab.size.toNat + (Sections.symbolSize - 1)) /
      Sections.symbolSize = object.symbolCount := by
    have whole := checked.records
    rw [Sections.symbolSize, symbolCount]
    omega
  rw [symbols, symbolScan, Symbol.scan, count]
  simp only [symbolPosition, Sections.symbolSize, Nat.mul_comm]

theorem symbolNameStart_le {index : Nat} (inside : index < object.symbolCount)
    (named : ¬object.Dangling index) : object.symbolNameStart index ≤ object.image.size := by
  apply Nat.le_of_not_lt
  intro outside
  exact named ⟨inside, outside⟩

theorem read_of_not_dangling (checked : object.Checked) {index : Nat}
    (inside : index < object.symbolCount) (named : ¬object.Dangling index) :
    Symbol.read object.image object.sections.strtab (object.symbolPosition index) =
      .ok (object.image.symbolAt object.sections.strtab.offset.toNat
        (object.symbolPosition index)) :=
  Symbol.read_of_le (symbolPosition_add_le checked inside) (symbolNameStart_le inside named)

theorem read_of_dangling (checked : object.Checked) {index : Nat}
    (dangling : object.Dangling index) :
    Symbol.read object.image object.sections.strtab (object.symbolPosition index) =
      .error (.invalidOffset (object.symbolNameStart index)) :=
  Symbol.read_of_lt (symbolPosition_add_le checked dangling.1) dangling.2

theorem symbols_of_firstDangling (checked : object.Checked) {index : Nat}
    (first : object.FirstDangling index) :
    object.symbols = .error (.invalidOffset (object.symbolNameStart index)) := by
  obtain ⟨dangling, before⟩ := first
  rw [symbols_eq checked, Scan.items_result_eq_error_iff]
  refine ⟨index, dangling.1, read_of_dangling checked dangling, ?_⟩
  intro earlier less
  exact ⟨_, read_of_not_dangling checked (Nat.lt_trans less dangling.1) (before earlier less)⟩

theorem symbols_of_not_dangling (checked : object.Checked)
    (named : ∀ index, ¬object.Dangling index) :
    object.symbols = .ok ((List.range object.symbolCount).map fun index =>
      object.image.symbolAt object.sections.strtab.offset.toNat (object.symbolPosition index)) := by
  rw [symbols_eq checked, Scan.items_result_eq_ok_iff]
  refine ⟨by simp, ?_⟩
  intro index inside
  rw [List.length_map, List.length_range] at inside
  rw [List.getElem_map, List.getElem_range]
  exact read_of_not_dangling checked inside (named index)

theorem symbols_eq_error_iff (checked : object.Checked) (error : Error) :
    object.symbols = .error error ↔
      ∃ index, object.FirstDangling index ∧
        error = .invalidOffset (object.symbolNameStart index) := by
  constructor
  · intro failed
    by_cases some : ∃ index, object.Dangling index
    · obtain ⟨index, dangling⟩ := some
      obtain ⟨first, least⟩ := exists_firstDangling dangling
      rw [symbols_of_firstDangling checked least] at failed
      exact ⟨first, least, (Except.error.inj failed).symm⟩
    · rw [symbols_of_not_dangling checked (not_exists.mp some)] at failed
      cases failed
  · rintro ⟨index, first, rfl⟩
    exact symbols_of_firstDangling checked first

theorem not_dangling_of_symbols (checked : object.Checked) {symbols : List Symbol}
    (read : object.symbols = .ok symbols) (index : Nat) : ¬object.Dangling index := by
  intro dangling
  obtain ⟨first, least⟩ := exists_firstDangling dangling
  rw [symbols_of_firstDangling checked least] at read
  cases read

theorem words_of_checked (checked : object.Checked) :
    object.words = .ok ((List.range (object.sections.text.size.toNat / 4)).map fun index =>
      (object.sections.text.offset.toNat + 4 * index,
        object.image.word (object.sections.text.offset.toNat + 4 * index))) := by
  rw [words_eq_ok_iff]
  refine ⟨by simp, ?_⟩
  intro index inside
  rw [List.length_map, List.length_range] at inside
  rw [List.getElem_map, List.getElem_range]
  refine ⟨rfl, (object.image.wordAt_eq_ok_iff _ _).mpr ⟨?_, rfl⟩⟩
  have text := checked.text
  rw [Section.stop] at text
  omega

theorem code_of_checked (checked : object.Checked) : ∃ code, object.code = .ok code := by
  rw [code, words_of_checked checked]
  exact ⟨_, rfl⟩

end Object

end RiscvListing.Elf
