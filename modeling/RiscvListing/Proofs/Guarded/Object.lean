import RiscvListing.Proofs.Elf.Record
import RiscvListing.Proofs.Guarded.Machine

namespace RiscvListing.Guarded

open Elf

def checkRange (start count length : Nat) : Guarded Unit :=
  match add? start count with
  | some stop => if stop ≤ length then pure () else throw (.truncated start count)
  | none => throw (.truncated start count)

def ofBytes (bytes : Bytes) : Guarded Image :=
  if bytes.size < 4 then throw .invalidMagic
  else do
    let start ← slice bytes 0 4
    if start.toList = Image.magic then return ⟨bytes⟩ else throw .invalidMagic

def sliceAt (image : Image) (start count : Nat) : Guarded Bytes := do
  checkRange start count image.size
  let stop ← add start count
  slice image.bytes start stop

def byteOf (bytes : Bytes) (index : Nat) : Guarded (BitVec 8) := do
  return (← element bytes index).toBitVec

def byteAt (image : Image) (start : Nat) : Guarded (BitVec 8) := do
  let bytes ← sliceAt image start 1
  byteOf bytes 0

def halfAt (image : Image) (start : Nat) : Guarded (BitVec 16) := do
  let bytes ← sliceAt image start 2
  let low ← byteOf bytes 0
  let high ← byteOf bytes 1
  return high ++ low

def wordAt (image : Image) (start : Nat) : Guarded Word := do
  let bytes ← sliceAt image start 4
  let first ← byteOf bytes 0
  let second ← byteOf bytes 1
  let third ← byteOf bytes 2
  let fourth ← byteOf bytes 3
  return fourth ++ third ++ second ++ first

def fieldAt (image : Image) (entry field : Nat) : Guarded Word := do
  let start ← add entry field
  wordAt image start

def nameAt (image : Image) (start : Nat) : Guarded String :=
  if image.size < start then throw (.invalidOffset start)
  else do
    let tail ← slice image.bytes start image.size
    let name ← slice tail 0 (tail.toList.findIdx (· == 0))
    return byteText name.toList

theorem yields_checkRange {length : Nat} (small : length < 2 ^ 64) (start count : Nat) :
    Yields (checkRange start count length) (Elf.checkRange start count length) := by
  by_cases inside : start + count ≤ length
  · have fits : start + count < 2 ^ 64 := by omega
    simp only [checkRange, add?, if_pos fits, if_pos inside, Elf.checkRange]
    exact yields_pure ()
  · have refused : checkRange start count length = throw (.truncated start count) := by
      rw [checkRange, add?]
      by_cases fits : start + count < 2 ^ 64
      · simp only [if_pos fits, if_neg inside]
      · simp only [if_neg fits]
    rw [refused, Elf.checkRange, if_neg inside]
    exact yields_throw _

section Image

variable {image : Image} (small : image.size < 2 ^ 63)

include small

theorem yields_field {α : Type} {start count : Nat} {next : Bytes → Guarded α} {field : α}
    (read : start + count ≤ image.size →
      Yields (next (image.bytes.extract start (start + count))) (.ok field)) :
    Yields (sliceAt image start count >>= next)
      (Elf.checkRange start count image.size >>= fun _ => .ok field) := by
  rw [sliceAt, bind_assoc]
  refine (yields_checkRange (by omega) start count).bind fun _ checked => ?_
  have inside : start + count ≤ image.size := by
    rw [Elf.checkRange] at checked
    split at checked
    · assumption
    · cases checked
  have stop : Yields (add start count) (.ok (start + count)) := yields_add (by omega)
  rw [bind_assoc]
  refine stop.next ?_
  exact (yields_slice (Nat.le_add_right start count) inside).next (read inside)

omit small in
theorem yields_byteOf {start count index : Nat} (inside : start + count ≤ image.size)
    (within : index < count) :
    Yields (byteOf (image.bytes.extract start (start + count)) index)
      (.ok (image.byte (start + index))) := by
  have position : start + index < image.bytes.size := by
    rw [Image.size] at inside
    omega
  have found : (image.bytes.extract start (start + count))[index]? =
      some (image.bytes.getD (start + index) 0) := by
    rw [Array.getElem?_extract, if_pos (by omega), Array.getD, dif_pos position]
    exact Array.getElem?_eq_getElem position
  exact (yields_element found).next (yields_pure _)

theorem yields_byteAt (start : Nat) : Yields (byteAt image start) (image.byteAt start) := by
  refine yields_field small fun inside => ?_
  exact yields_byteOf inside (by decide)

theorem yields_halfAt (start : Nat) : Yields (halfAt image start) (image.halfAt start) := by
  refine yields_field small fun inside => ?_
  refine (yields_byteOf inside (by decide)).next ?_
  refine (yields_byteOf inside (by decide)).next ?_
  exact yields_pure _

theorem yields_wordAt (start : Nat) : Yields (wordAt image start) (image.wordAt start) := by
  refine yields_field small fun inside => ?_
  refine (yields_byteOf inside (by decide)).next ?_
  refine (yields_byteOf inside (by decide)).next ?_
  refine (yields_byteOf inside (by decide)).next ?_
  refine (yields_byteOf inside (by decide)).next ?_
  exact yields_pure _

omit small in
theorem yields_nameAt (start : Nat) : Yields (nameAt image start) (image.nameAt start) := by
  by_cases inside : start ≤ image.size
  · have tail : (image.bytes.extract start image.size).toList = image.bytes.toList.drop start := by
      rw [Array.toList_extract, List.extract_eq_take_drop, Image.size, ← Array.length_toList,
        ← List.length_drop, List.take_length]
    have ending : (image.bytes.toList.drop start).findIdx (· == 0) ≤
        (image.bytes.extract start image.size).size := by
      rw [← Array.length_toList, tail]
      exact List.findIdx_le_length
    have name : ((image.bytes.extract start image.size).extract 0
        ((image.bytes.toList.drop start).findIdx (· == 0))).toList = image.nameBytes start := by
      rw [Array.toList_extract, List.extract_eq_take_drop, List.drop_zero, Nat.sub_zero, tail,
        Image.nameBytes, List.takeWhile_eq_take_findIdx_not]
      congr 2
      funext byte
      rw [Bool.eq_iff_iff]
      simp
    rw [nameAt, if_neg (Nat.not_lt.mpr inside), image.nameAt_of_le start inside]
    refine (yields_slice inside (Nat.le_refl _)).next ?_
    rw [tail]
    refine (yields_slice (Nat.zero_le _) ending).next ?_
    rw [name]
    exact yields_pure _
  · have outside := Nat.not_le.mp inside
    rw [nameAt, if_pos outside, image.nameAt_of_lt start outside]
    exact yields_throw _

end Image

theorem yields_ofBytes (bytes : Bytes) : Yields (ofBytes bytes) (Image.ofBytes bytes) := by
  rw [ofBytes, Image.ofBytes]
  by_cases short : bytes.size < 4
  · have absent : (bytes.extract 0 4).toList ≠ Image.magic := by
      intro present
      have length := congrArg List.length present
      simp [Image.magic] at length
      omega
    rw [if_pos short, if_neg absent]
    exact yields_throw _
  · rw [if_neg short]
    refine (yields_slice (by decide) (Nat.not_lt.mp short)).next ?_
    split
    · exact yields_pure _
    · exact yields_throw _

def readTable (image : Image) : Guarded HeaderTable := do
  let offset ← wordAt image 0x20
  let count ← halfAt image 0x30
  let nameIndex ← halfAt image 0x32
  return ⟨offset, count, nameIndex⟩

def position (table : HeaderTable) (index : Nat) : Guarded Nat := do
  let distance ← mul index HeaderTable.headerSize
  add table.offset.toNat distance

def namesOffset (table : HeaderTable) (image : Image) : Guarded Nat := do
  let length ← mul table.count.toNat HeaderTable.headerSize
  checkRange table.offset.toNat length image.size
  let entry ← position table table.nameIndex.toNat
  if table.nameIndex < table.count then
    let offset ← fieldAt image entry 16
    return offset.toNat
  else throw (.invalidOffset entry)

def headerAt (table : HeaderTable) (image : Image) (names index : Nat) :
    Guarded SectionHeader := do
  let entry ← position table index
  let nameOffset ← fieldAt image entry 0
  let start ← add names nameOffset.toNat
  let name ← nameAt image start
  let address ← fieldAt image entry 12
  let offset ← fieldAt image entry 16
  let size ← fieldAt image entry 20
  return ⟨name, address, offset, size⟩

def headers (table : HeaderTable) (image : Image) : Guarded (List SectionHeader) :=
  if table.count = 0#16 then return []
  else do
    let names ← namesOffset table image
    loop 1 table.count.toNat (headerAt table image names) (image.size + 1) 0 []

def select (strict : Bool) (headers : List SectionHeader) : Guarded Sections :=
  ExceptT.mk (.ok (Sections.select strict headers))

def check (sections : Sections) (length : Nat) : Guarded Unit := do
  checkRange sections.text.offset.toNat sections.text.size.toNat length
  checkRange sections.symtab.offset.toNat sections.symtab.size.toNat length
  if sections.symtab.size.toNat % Sections.symbolSize ≠ 0 then
    throw (.misalignedSection .symtab sections.symtab.size.toNat Sections.symbolSize)

def resolve (image : Image) (strict : Bool) : Guarded Sections := do
  let table ← readTable image
  let headers ← headers table image
  let sections ← select strict headers
  check sections image.size
  return sections

def parse (bytes : Bytes) (strict : Bool) : Guarded Object := do
  let image ← ofBytes bytes
  let sections ← resolve image strict
  return ⟨image, sections⟩

def readSymbol (image : Image) (strtab : Section) (position : Nat) : Guarded Symbol := do
  let nameOffset ← fieldAt image position 0
  let start ← add strtab.offset.toNat nameOffset.toNat
  let name ← nameAt image start
  let value ← fieldAt image position 4
  let size ← fieldAt image position 8
  let info ← byteAt image (← add position 12)
  let other ← byteAt image (← add position 13)
  let sectionIndex ← halfAt image (← add position 14)
  return ⟨name, value, size, info, other, sectionIndex⟩

def symbols (object : Object) : Guarded (List Symbol) := do
  let symtab := object.sections.symtab
  let stop ← add symtab.offset.toNat symtab.size.toNat
  loop Sections.symbolSize stop (readSymbol object.image object.sections.strtab)
    (object.image.size + 1) symtab.offset.toNat []

def words (object : Object) : Guarded (List (Nat × Word)) := do
  let text := object.sections.text
  let whole ← mul (text.size.toNat / 4) 4
  let stop ← add text.offset.toNat whole
  let read (position : Nat) : Guarded (Nat × Word) := do
    let word ← wordAt object.image position
    return (position, word)
  loop 4 stop read (object.image.size + 1) text.offset.toNat []

def code (object : Object) : Guarded (List CodeWord) := do
  let words ← words object
  return words.map fun (position, word) => ⟨object.sections.text.addressOf position, word⟩

section Table

variable {image : Image} (small : image.size < 2 ^ 63)

theorem yields_position {index : Nat} (few : index < 2 ^ 16) (table : HeaderTable) :
    Yields (position table index) (.ok (table.position index)) := by
  have offset := table.offset.isLt
  rw [HeaderTable.position, HeaderTable.headerSize]
  refine (yields_mul ?_).next (yields_add ?_)
  · rw [HeaderTable.headerSize]
    omega
  · rw [HeaderTable.headerSize]
    omega

include small

theorem yields_fieldAt {entry field : Nat} (fits : entry + field < 2 ^ 64) :
    Yields (fieldAt image entry field) (image.wordAt (entry + field)) :=
  (yields_add fits).next (yields_wordAt small _)

theorem yields_readTable : Yields (readTable image) (HeaderTable.read image) := by
  refine (yields_wordAt small 0x20).bind fun offset _ => ?_
  refine (yields_halfAt small 0x30).bind fun count _ => ?_
  refine (yields_halfAt small 0x32).bind fun nameIndex _ => ?_
  exact yields_pure _

omit small in
theorem position_lt {index : Nat} (few : index < 2 ^ 16) (table : HeaderTable) :
    table.position index < 2 ^ 33 := by
  have offset := table.offset.isLt
  rw [HeaderTable.position, HeaderTable.headerSize]
  omega

theorem yields_namesOffset (table : HeaderTable) :
    Yields (namesOffset table image) (table.namesOffset image) := by
  have count := table.count.isLt
  have index := table.nameIndex.isLt
  have entry := position_lt index table
  refine (yields_mul ?_).next ?_
  · rw [HeaderTable.headerSize]
    omega
  · refine (yields_checkRange (by omega) _ _).bind fun _ _ => ?_
    refine (yields_position index table).next ?_
    split
    · refine (yields_fieldAt small (by omega)).bind fun offset _ => ?_
      exact yields_pure _
    · exact yields_throw _

theorem yields_headerAt {table : HeaderTable} {names index : Nat} (low : names < 2 ^ 32)
    (few : index < 2 ^ 16) :
    Yields (headerAt table image names index) (table.headerAt image names index) := by
  have entry := position_lt few table
  refine (yields_position few table).next ?_
  refine (yields_fieldAt small (by omega)).bind fun nameOffset _ => ?_
  have name := nameOffset.isLt
  refine (yields_add (by omega)).next ?_
  refine (yields_nameAt _).bind fun name _ => ?_
  refine (yields_fieldAt small (by omega)).bind fun address _ => ?_
  refine (yields_fieldAt small (by omega)).bind fun offset _ => ?_
  refine (yields_fieldAt small (by omega)).bind fun size _ => ?_
  exact yields_pure _

omit small in
theorem of_namesOffset {table : HeaderTable} {names : Nat}
    (read : table.namesOffset image = .ok names) :
    table.count.toNat ≤ image.size ∧ names < 2 ^ 32 := by
  obtain ⟨fits, rest⟩ := (checkRange_bind_eq_ok_iff _ _ _ _ _).mp read
  rw [HeaderTable.headerSize] at fits
  refine ⟨by omega, ?_⟩
  split at rest
  · obtain ⟨offset, -, made⟩ := (bind_eq_ok_iff _ _ _).mp rest
    cases made
    exact offset.isLt
  · cases rest

/-- The walk over the section headers comes to its end, and no sum that it forms is too large. -/
theorem yields_headers (table : HeaderTable) :
    Yields (headers table image) (table.headers image).result := by
  by_cases empty : table.count = 0#16
  · rw [headers, if_pos empty, HeaderTable.headers, if_pos empty]
    exact yields_pure []
  · rw [headers, if_neg empty, HeaderTable.headers_result empty]
    refine (yields_namesOffset small table).bind fun names read => ?_
    obtain ⟨few, low⟩ := of_namesOffset read
    have count := table.count.isLt
    refine yields_items ?_ (by omega) (by omega) ?_ (by omega)
    · intro index within
      omega
    · intro index within
      rw [Nat.zero_add, Nat.one_mul]
      exact yields_headerAt small low (by omega)

omit small in
theorem yields_select (strict : Bool) (headers : List SectionHeader) :
    Yields (select strict headers) (Sections.select strict headers) :=
  rfl

theorem yields_check (sections : Sections) :
    Yields (check sections image.size) (sections.check image.size) := by
  refine (yields_checkRange (by omega) _ _).bind fun _ _ => ?_
  refine (yields_checkRange (by omega) _ _).bind fun _ _ => ?_
  split
  · exact yields_throw _
  · exact yields_pure ()

theorem yields_resolve (strict : Bool) :
    Yields (resolve image strict) (Sections.resolve image strict) := by
  refine (yields_readTable small).bind fun table _ => ?_
  refine (yields_headers small table).bind fun headers _ => ?_
  refine (yields_select strict headers).bind fun sections _ => ?_
  refine (yields_check small sections).bind fun _ _ => ?_
  exact yields_pure sections

end Table

theorem yields_parse {bytes : Bytes} (small : bytes.size < 2 ^ 63) (strict : Bool) :
    Yields (parse bytes strict) (Object.parse bytes strict) := by
  refine (yields_ofBytes bytes).bind fun image made => ?_
  have same : image.size = bytes.size := by
    unfold Image.ofBytes at made
    split at made
    · cases made
      rfl
    · cases made
  refine (yields_resolve (by omega) strict).bind fun sections _ => ?_
  exact yields_pure _

section Object

variable {object : Object} (checked : object.Checked) (small : object.image.size < 2 ^ 63)

include small

theorem yields_readSymbol (strtab : Section) {position : Nat} (low : position < 2 ^ 33) :
    Yields (readSymbol object.image strtab position)
      (Symbol.read object.image strtab position) := by
  have names := strtab.offset.isLt
  refine (yields_fieldAt small (by omega)).bind fun nameOffset _ => ?_
  have name := nameOffset.isLt
  refine (yields_add (by omega)).next ?_
  refine (yields_nameAt _).bind fun name _ => ?_
  refine (yields_fieldAt small (by omega)).bind fun value _ => ?_
  refine (yields_fieldAt small (by omega)).bind fun size _ => ?_
  refine (yields_add (by omega)).next ?_
  refine (yields_byteAt small _).bind fun info _ => ?_
  refine (yields_add (by omega)).next ?_
  refine (yields_byteAt small _).bind fun other _ => ?_
  refine (yields_add (by omega)).next ?_
  refine (yields_halfAt small _).bind fun sectionIndex _ => ?_
  exact yields_pure _

include checked

theorem yields_symbols : Yields (symbols object) object.symbols := by
  have offset := object.sections.symtab.offset.isLt
  have size := object.sections.symtab.size.isLt
  have stop := checked.symtab
  have whole := checked.records
  rw [Section.stop] at stop
  rw [Object.symbols_eq checked, symbols]
  refine (yields_add (by omega)).next ?_
  refine yields_items ?_ ?_ ?_ ?_ ?_
  all_goals rw [Object.symbolCount]
  · intro index within
    rw [Sections.symbolSize]
    omega
  · rw [Sections.symbolSize]
    omega
  · rw [Sections.symbolSize]
    omega
  · intro index within
    rw [Sections.symbolSize]
    exact yields_readSymbol small _ (by omega)
  · omega

theorem yields_words : Yields (words object) object.words := by
  have offset := object.sections.text.offset.isLt
  have size := object.sections.text.size.isLt
  have stop := checked.text
  rw [Section.stop] at stop
  rw [words, Object.words]
  refine (yields_mul (by omega)).next ?_
  refine (yields_add (by omega)).next ?_
  refine yields_items ?_ (by omega) (by omega) ?_ (by omega)
  · intro index within
    omega
  · intro index _
    exact (yields_wordAt small _).bind fun word _ => yields_pure _

theorem yields_code : Yields (code object) object.code :=
  (yields_words checked small).bind fun _ _ => yields_pure _

end Object

end RiscvListing.Guarded
