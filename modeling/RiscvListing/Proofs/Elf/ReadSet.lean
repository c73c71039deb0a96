import RiscvListing.Proofs.Elf.Record

namespace RiscvListing.Elf

theorem takeWhile_eq_of_getElem? {test : UInt8 → Bool} {first second : List UInt8}
    (same : ∀ index, index < (first.takeWhile test).length → second[index]? = first[index]?)
    (stop : ∀ byte, second[(first.takeWhile test).length]? = some byte → test byte = false) :
    second.takeWhile test = first.takeWhile test := by
  induction first generalizing second with
  | nil =>
    cases second with
    | nil => rfl
    | cons byte second =>
      have last : test byte = false := stop byte rfl
      rw [List.takeWhile_cons_of_neg (by simp [last])]
      rfl
  | cons head first ih =>
    cases continues : test head with
    | false =>
      rw [List.takeWhile_cons_of_neg (by simp [continues])] at same stop ⊢
      cases second with
      | nil => rfl
      | cons byte second =>
        have last : test byte = false := stop byte rfl
        rw [List.takeWhile_cons_of_neg (by simp [last])]
    | true =>
      rw [List.takeWhile_cons_of_pos continues] at same stop ⊢
      cases second with
      | nil => cases same 0 (Nat.succ_pos _)
      | cons byte second =>
        have equal : byte = head := Option.some.inj (same 0 (Nat.succ_pos _))
        subst byte
        rw [List.takeWhile_cons_of_pos continues]
        apply congrArg (head :: ·)
        apply ih
        · intro index inside
          exact same (index + 1) (Nat.succ_lt_succ inside)
        · intro byte found
          exact stop byte found

theorem eq_false_of_getElem?_takeWhile {test : UInt8 → Bool} {bytes : List UInt8} {byte : UInt8}
    (found : bytes[(bytes.takeWhile test).length]? = some byte) : test byte = false := by
  induction bytes with
  | nil => cases found
  | cons head bytes ih =>
    cases continues : test head with
    | false =>
      rw [List.takeWhile_cons_of_neg (by simp [continues])] at found
      cases found
      exact continues
    | true =>
      rw [List.takeWhile_cons_of_pos continues] at found
      exact ih found

namespace Image

def nameEnd (image : Image) (start : Nat) : Nat :=
  start + (image.nameBytes start).length

section Congruence

variable {image other : Image} {start : Nat}

theorem byte_congr {position : Nat}
    (same : other.bytes[position]? = image.bytes[position]?) :
    other.byte position = image.byte position := by
  rw [byte, byte, Array.getD_eq_getD_getElem?, Array.getD_eq_getD_getElem?, same]

theorem half_congr (same : ∀ position, start ≤ position → position < start + 2 →
    other.bytes[position]? = image.bytes[position]?) : other.half start = image.half start := by
  rw [half, half, byte_congr (same (start + 1) (by omega) (by omega)),
    byte_congr (same start (by omega) (by omega))]

theorem word_congr (same : ∀ position, start ≤ position → position < start + 4 →
    other.bytes[position]? = image.bytes[position]?) : other.word start = image.word start := by
  rw [word, word, byte_congr (same (start + 3) (by omega) (by omega)),
    byte_congr (same (start + 2) (by omega) (by omega)),
    byte_congr (same (start + 1) (by omega) (by omega)),
    byte_congr (same start (by omega) (by omega))]

theorem nameBytes_congr (same : ∀ position, start ≤ position → position < image.nameEnd start →
      other.bytes[position]? = image.bytes[position]?)
    (ends : other.bytes[image.nameEnd start]? = none ∨
      other.bytes[image.nameEnd start]? = some 0) :
    other.nameBytes start = image.nameBytes start := by
  apply takeWhile_eq_of_getElem?
  · intro index inside
    rw [List.getElem?_drop, List.getElem?_drop, Array.getElem?_toList, Array.getElem?_toList]
    exact same (start + index) (by omega) (Nat.add_lt_add_left inside start)
  · intro byte found
    rw [List.getElem?_drop, Array.getElem?_toList] at found
    change other.bytes[image.nameEnd start]? = some byte at found
    rcases ends with ends | ends
    · rw [ends] at found
      cases found
    · rw [ends] at found
      cases found
      rfl

end Congruence

theorem getElem?_nameEnd (image : Image) (start : Nat) :
    image.bytes[image.nameEnd start]? = none ∨ image.bytes[image.nameEnd start]? = some 0 := by
  cases found : image.bytes[image.nameEnd start]? with
  | none => exact .inl rfl
  | some byte =>
    rw [nameEnd, nameBytes, ← Array.getElem?_toList, ← List.getElem?_drop] at found
    have last := eq_false_of_getElem?_takeWhile found
    rw [decide_eq_false_iff_not, Decidable.not_not] at last
    exact .inr (congrArg some last)

theorem nameEnd_le {image : Image} {start : Nat} (inside : start ≤ image.size) :
    image.nameEnd start ≤ image.size := by
  have length : (image.nameBytes start).length ≤ (image.bytes.toList.drop start).length :=
    (List.takeWhile_sublist _).length_le
  have whole : image.bytes.toList.length = image.size := Array.length_toList
  rw [List.length_drop, whole] at length
  rw [nameEnd]
  omega

end Image

namespace Object

/-- The positions of a file whose bytes its listing depends on. -/
inductive Reads (object : Object) (position : Nat) : Prop where
  | magic (before : position < 4)
  | tableStart (after : 0x20 ≤ position) (before : position < 0x24)
  | tableSize (after : 0x30 ≤ position) (before : position < 0x34)
  | headerName (index : Nat) (inside : index < object.image.table.count.toNat)
    (after : object.image.table.position index ≤ position)
    (before : position < object.image.table.position index + 4)
  | headerFields (index : Nat) (inside : index < object.image.table.count.toNat)
    (after : object.image.table.position index + 12 ≤ position)
    (before : position < object.image.table.position index + 24)
  | code (after : object.sections.text.offset.toNat ≤ position)
    (before : position < object.sections.text.offset.toNat +
      4 * (object.sections.text.size.toNat / 4))
  | symbols (after : object.sections.symtab.offset.toNat ≤ position)
    (before : position < object.sections.symtab.stop)
  | sectionName (index : Nat) (inside : index < object.image.table.count.toNat)
    (after : object.image.sectionNameStart index ≤ position)
    (before : position < object.image.nameEnd (object.image.sectionNameStart index))
  | symbolName (index : Nat) (inside : index < object.symbolCount)
    (after : object.symbolNameStart index ≤ position)
    (before : position < object.image.nameEnd (object.symbolNameStart index))

/-- The positions at which the names of the sections and of the symbols end. -/
inductive NameEnds (object : Object) : Nat → Prop where
  | ofSection (index : Nat) (inside : index < object.image.table.count.toNat) :
    NameEnds object (object.image.nameEnd (object.image.sectionNameStart index))
  | ofSymbol (index : Nat) (inside : index < object.symbolCount) :
    NameEnds object (object.image.nameEnd (object.symbolNameStart index))

/-- Another file, not shorter, that has the same bytes where the listing reads them and in which
the same names end. -/
structure Agrees (object : Object) (other : Image) : Prop where
  longer : object.image.size ≤ other.size
  bytes : ∀ position, object.Reads position →
    other.bytes[position]? = object.image.bytes[position]?
  ends : ∀ position, object.NameEnds position →
    other.bytes[position]? = none ∨ other.bytes[position]? = some 0

variable {object : Object} {other : Image}

theorem Agrees.table (agrees : object.Agrees other) : other.table = object.image.table := by
  have offset : other.word 0x20 = object.image.word 0x20 :=
    Image.word_congr fun position after before => agrees.bytes position (.tableStart after before)
  have count : other.half 0x30 = object.image.half 0x30 :=
    Image.half_congr fun position after before =>
      agrees.bytes position (.tableSize after (by omega))
  have nameIndex : other.half 0x32 = object.image.half 0x32 :=
    Image.half_congr fun position after before =>
      agrees.bytes position (.tableSize (by omega) before)
  rw [Image.table, Image.table, offset, count, nameIndex]

section Headers

variable (agrees : object.Agrees other) {index : Nat}
  (inside : index < object.image.table.count.toNat)

include agrees inside

theorem Agrees.headerField {field : Nat} (low : 12 ≤ field) (high : field ≤ 20) :
    other.word (other.table.position index + field) =
      object.image.word (object.image.table.position index + field) := by
  rw [agrees.table]
  apply Image.word_congr
  intro position after before
  exact agrees.bytes position (.headerFields index inside (by omega) (by omega))

theorem Agrees.sectionNameStart (readable : object.image.TableReadable) :
    other.sectionNameStart index = object.image.sectionNameStart index := by
  have names : other.namesStart = object.image.namesStart := by
    have offset : other.word (other.table.position object.image.table.nameIndex.toNat + 16) = _ :=
      agrees.headerField readable.nameIndex (by decide) (by decide)
    rw [Image.namesStart, Image.namesStart, ← offset, agrees.table]
  have name : other.word (other.table.position index) =
      object.image.word (object.image.table.position index) := by
    rw [agrees.table]
    apply Image.word_congr
    intro position after before
    exact agrees.bytes position (.headerName index inside after before)
  rw [Image.sectionNameStart, Image.sectionNameStart, names, name]

theorem Agrees.sectionName (readable : object.image.TableReadable) :
    other.sectionName index = object.image.sectionName index := by
  rw [Image.sectionName, Image.sectionName, agrees.sectionNameStart inside readable]
  apply congrArg byteText
  apply Image.nameBytes_congr
  · intro position after before
    exact agrees.bytes position (.sectionName index inside after before)
  · exact agrees.ends _ (.ofSection index inside)

theorem Agrees.header (readable : object.image.TableReadable) :
    other.header index = object.image.header index := by
  rw [Image.header, Image.header, agrees.sectionName inside readable,
    agrees.headerField inside (by decide) (by decide),
    agrees.headerField inside (by decide) (by decide),
    agrees.headerField inside (by decide) (by decide)]

end Headers

theorem Agrees.resolve (agrees : object.Agrees other) {strict : Bool}
    (resolved : Sections.resolve object.image strict = .ok object.sections) :
    Sections.resolve other strict = .ok object.sections := by
  obtain ⟨long, readable, selected, text, symtab, records⟩ :=
    (Sections.resolve_eq_ok_iff_select _ _ _).mp resolved
  have longer := agrees.longer
  have headers : (List.range other.table.count.toNat).map other.header =
      (List.range object.image.table.count.toNat).map object.image.header := by
    rw [agrees.table]
    apply List.map_congr_left
    intro index member
    have inside := List.mem_range.mp member
    exact agrees.header inside (readable (by omega))
  rw [Sections.resolve_eq_ok_iff_select, headers]
  refine ⟨by omega, ?_, selected, by omega, by omega, records⟩
  intro positive
  rw [agrees.table] at positive
  obtain ⟨fits, known, names⟩ := readable positive
  refine ⟨?_, ?_, ?_⟩
  · rw [agrees.table]
    omega
  · rw [agrees.table]
    exact known
  · intro index inside
    rw [agrees.table] at inside
    have start := names index inside
    rw [agrees.sectionNameStart inside ⟨fits, known, names⟩]
    omega

theorem Agrees.magic (agrees : object.Agrees other) :
    (other.bytes.extract 0 4).toList = (object.image.bytes.extract 0 4).toList := by
  apply List.ext_getElem?
  intro index
  simp only [Array.toList_extract, List.extract_eq_take_drop, List.drop_zero, List.getElem?_take,
    Array.getElem?_toList]
  split
  next before => exact agrees.bytes index (.magic before)
  next => rfl

theorem Agrees.parse (agrees : object.Agrees other) {bytes : Bytes} {strict : Bool}
    (parsed : Object.parse bytes strict = .ok object) :
    Object.parse other.bytes strict = .ok ⟨other, object.sections⟩ := by
  obtain ⟨magic, same, resolved⟩ := (parse_eq_ok_iff _ _ _).mp parsed
  rw [parse_eq_ok_iff, agrees.magic, same]
  exact ⟨magic, rfl, agrees.resolve resolved⟩

theorem Agrees.checked (agrees : object.Agrees other) (checked : object.Checked) :
    Object.Checked ⟨other, object.sections⟩ :=
  ⟨Nat.le_trans checked.text agrees.longer, Nat.le_trans checked.symtab agrees.longer,
    checked.records⟩

theorem Agrees.words (agrees : object.Agrees other) (checked : object.Checked) :
    Object.words ⟨other, object.sections⟩ = object.words := by
  rw [words_of_checked checked, words_of_checked (agrees.checked checked)]
  apply congrArg Except.ok
  apply List.map_congr_left
  intro index member
  have inside := List.mem_range.mp member
  dsimp only at inside ⊢
  apply congrArg (Prod.mk _)
  apply Image.word_congr
  intro position after before
  exact agrees.bytes position (.code (by omega) (by omega))

theorem Agrees.code (agrees : object.Agrees other) (checked : object.Checked) :
    Object.code ⟨other, object.sections⟩ = object.code := by
  rw [Object.code, Object.code, agrees.words checked]

section Symbols

variable (agrees : object.Agrees other) {index : Nat} (inside : index < object.symbolCount)

include agrees inside

theorem Agrees.recordByte {position : Nat} (after : object.symbolPosition index ≤ position)
    (before : position < object.symbolPosition index + 16) :
    other.bytes[position]? = object.image.bytes[position]? := by
  apply agrees.bytes position
  rw [symbolPosition] at after before
  rw [symbolCount] at inside
  exact .symbols (by omega) (by rw [Section.stop]; omega)

theorem Agrees.recordWord {start : Nat} (low : object.symbolPosition index ≤ start)
    (high : start + 4 ≤ object.symbolPosition index + 16) :
    other.word start = object.image.word start := by
  apply Image.word_congr
  intro position after before
  exact agrees.recordByte inside (by omega) (by omega)

theorem Agrees.symbolAt :
    other.symbolAt object.sections.strtab.offset.toNat (object.symbolPosition index) =
      object.image.symbolAt object.sections.strtab.offset.toNat
        (object.symbolPosition index) := by
  have start := agrees.recordWord inside (Nat.le_refl _) (by omega)
  have value := agrees.recordWord inside (Nat.le_add_right _ 4) (by omega)
  have size := agrees.recordWord inside (Nat.le_add_right _ 8) (by omega)
  have info := Image.byte_congr (agrees.recordByte inside (Nat.le_add_right _ 12) (by omega))
  have visibility :=
    Image.byte_congr (agrees.recordByte inside (Nat.le_add_right _ 13) (by omega))
  have sectionIndex : other.half (object.symbolPosition index + 14) =
      object.image.half (object.symbolPosition index + 14) := by
    apply Image.half_congr
    intro position after before
    exact agrees.recordByte inside (by omega) (by omega)
  have name : other.nameBytes (object.symbolNameStart index) =
      object.image.nameBytes (object.symbolNameStart index) := by
    apply Image.nameBytes_congr
    · intro position after before
      exact agrees.bytes position (.symbolName index inside after before)
    · exact agrees.ends _ (.ofSymbol index inside)
  rw [symbolNameStart] at name
  rw [Image.symbolAt, Image.symbolAt, start, name, value, size, info, visibility, sectionIndex]

end Symbols

theorem Agrees.symbols (agrees : object.Agrees other) (checked : object.Checked)
    (named : ∀ index, ¬object.Dangling index) :
    Object.symbols ⟨other, object.sections⟩ = object.symbols := by
  have longer := agrees.longer
  have alsoNamed : ∀ index, ¬Object.Dangling ⟨other, object.sections⟩ index := by
    intro index dangling
    obtain ⟨inside, outside⟩ := dangling
    apply named index
    refine ⟨inside, ?_⟩
    have start := agrees.recordWord inside (Nat.le_refl _) (by omega)
    change other.size < object.sections.strtab.offset.toNat +
      (other.word (object.symbolPosition index)).toNat at outside
    rw [start] at outside
    rw [symbolNameStart]
    omega
  rw [symbols_of_not_dangling checked named,
    symbols_of_not_dangling (agrees.checked checked) alsoNamed]
  apply congrArg Except.ok
  apply List.map_congr_left
  intro index member
  exact agrees.symbolAt (List.mem_range.mp member)

theorem NameEnds.getElem? {position : Nat} (ends : object.NameEnds position) :
    object.image.bytes[position]? = none ∨ object.image.bytes[position]? = some 0 := by
  cases ends with
  | ofSection index inside => exact object.image.getElem?_nameEnd _
  | ofSymbol index inside => exact object.image.getElem?_nameEnd _

theorem agrees_of_unread {second : Bytes} (same : second.size = object.image.size)
    (unread : ∀ position, second[position]? ≠ object.image.bytes[position]? →
      ¬object.Reads position ∧ ¬object.NameEnds position) : object.Agrees ⟨second⟩ where
  longer := Nat.le_of_eq same.symm
  bytes := by
    intro position read
    apply Decidable.byContradiction
    intro different
    exact (unread position different).1 read
  ends := by
    intro position ends
    have equal : second[position]? = object.image.bytes[position]? := by
      apply Decidable.byContradiction
      intro different
      exact (unread position different).2 ends
    rw [equal]
    exact ends.getElem?

section Positions

variable {bytes : Bytes} {strict : Bool} (parsed : Object.parse bytes strict = .ok object)
  (named : ∀ index, ¬object.Dangling index) {position : Nat}

include parsed named

theorem Reads.lt_size (read : object.Reads position) : position < object.image.size := by
  obtain ⟨-, -, resolved⟩ := (parse_eq_ok_iff _ _ _).mp parsed
  obtain ⟨long, readable, -⟩ := (Sections.resolve_eq_ok_iff_select _ _ _).mp resolved
  obtain ⟨text, symtab, -⟩ := checked_of_parse parsed
  rw [Section.stop] at text symtab
  cases read with
  | magic before => omega
  | tableStart after before => omega
  | tableSize after before => omega
  | headerName index inside after before =>
    have entry := Image.position_add_le (readable (by omega)).headers inside
    omega
  | headerFields index inside after before =>
    have entry := Image.position_add_le (readable (by omega)).headers inside
    omega
  | code after before => omega
  | symbols after before =>
    rw [Section.stop] at before
    omega
  | sectionName index inside after before =>
    have stop := Image.nameEnd_le ((readable (by omega)).names index inside)
    omega
  | symbolName index inside after before =>
    have stop := Image.nameEnd_le (symbolNameStart_le inside (named index))
    omega

theorem NameEnds.le_size (ends : object.NameEnds position) : position ≤ object.image.size := by
  obtain ⟨-, -, resolved⟩ := (parse_eq_ok_iff _ _ _).mp parsed
  obtain ⟨-, readable, -⟩ := (Sections.resolve_eq_ok_iff_select _ _ _).mp resolved
  cases ends with
  | ofSection index inside => exact Image.nameEnd_le ((readable (by omega)).names index inside)
  | ofSymbol index inside => exact Image.nameEnd_le (symbolNameStart_le inside (named index))

theorem agrees_append (tail : List UInt8) :
    object.Agrees ⟨object.image.bytes ++ (0 :: tail).toArray⟩ where
  longer := by
    rw [Image.size, Image.size, Array.size_append]
    exact Nat.le_add_right _ _
  bytes := by
    intro position read
    exact Array.getElem?_append_left (read.lt_size parsed named)
  ends := by
    intro position ends
    rcases Nat.lt_or_eq_of_le (ends.le_size parsed named) with before | atEnd
    · rw [Array.getElem?_append_left before]
      exact ends.getElem?
    · refine .inr ?_
      rw [Array.getElem?_append_right (Nat.le_of_eq atEnd.symm), atEnd, Image.size, Nat.sub_self]
      rfl

end Positions

end Object

end RiscvListing.Elf
