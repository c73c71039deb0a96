import RiscvListing.Proofs.Elf.Code
import RiscvListing.Proofs.Elf.Layout

namespace RiscvListing.Elf

theorem length_flatten {parts : List (List UInt8)} {width : Nat}
    (sizes : ∀ part ∈ parts, part.length = width) :
    parts.flatten.length = width * parts.length := by
  induction parts with
  | nil => rfl
  | cons part parts ih =>
    have rest := ih fun other member => sizes other (List.mem_cons_of_mem _ member)
    rw [List.flatten_cons, List.length_append, rest, sizes part (by simp), List.length_cons,
      Nat.mul_succ, Nat.add_comm]

theorem wordAt_of_holds_words {image : Image} {start : Nat} {words : List Word}
    (held : image.Holds start (words.flatMap wordBytes)) (index : Nat)
    (inside : index < words.length) : image.wordAt (start + 4 * index) = .ok words[index] := by
  rw [List.flatMap_def] at held
  have sizes : ∀ part ∈ words.map wordBytes, part.length = 4 := by
    intro part member
    obtain ⟨word, -, rfl⟩ := List.mem_map.mp member
    rfl
  have word := held.flatten sizes index (by simpa using inside)
  rw [List.getElem_map] at word
  exact Image.wordAt_of_holds word

theorem HeaderTable.headerAt_of_holds {image : Image} {table : HeaderTable} {names index : Nat}
    {fields : List Word} {name : List UInt8} (ten : fields.length = 10)
    (held : image.Holds (table.position index) (fields.flatMap wordBytes))
    (named : image.Holds (names + fields[0].toNat) (name ++ [0])) (nonzero : 0 ∉ name) :
    table.headerAt image names index = .ok ⟨byteText name, fields[3], fields[4], fields[5]⟩ := by
  have nameOffset : image.wordAt (table.position index) = .ok fields[0] :=
    wordAt_of_holds_words held 0 (by omega)
  have address : image.wordAt (table.position index + 12) = .ok fields[3] :=
    wordAt_of_holds_words held 3 (by omega)
  have offset : image.wordAt (table.position index + 16) = .ok fields[4] :=
    wordAt_of_holds_words held 4 (by omega)
  have size : image.wordAt (table.position index + 20) = .ok fields[5] :=
    wordAt_of_holds_words held 5 (by omega)
  unfold headerAt
  simp only [nameOffset, address, offset, size, Image.nameAt_of_holds named nonzero, Bind.bind,
    Except.bind]
  rfl

namespace Layout

variable {layout : Layout} {image : Image}

def headerTable (layout : Layout) : HeaderTable :=
  ⟨.ofNat 32 layout.headerOffset, 5, 4⟩

theorem length_headers {part : List UInt8} (member : part ∈ layout.headers) :
    part.length = HeaderTable.headerSize := by
  simp only [headers, headerFields, List.map_cons, List.map_nil, List.mem_cons,
    List.not_mem_nil, or_false] at member
  rcases member with rfl | rfl | rfl | rfl | rfl <;> rfl

def sectionHeaders (layout : Layout) : List SectionHeader :=
  [⟨"", 0, 0, 0⟩,
   ⟨".text", layout.address, .ofNat 32 textOffset, .ofNat 32 layout.text.length⟩,
   ⟨".symtab", 0, .ofNat 32 layout.symbolOffset, .ofNat 32 layout.records.flatten.length⟩,
   ⟨".strtab", 0, .ofNat 32 layout.stringOffset, .ofNat 32 (stringTable layout.symbols).length⟩,
   ⟨".shstrtab", 0, .ofNat 32 layout.namesOffset, .ofNat 32 sectionNames.length⟩]

def sections (layout : Layout) : Sections where
  text := ⟨.text, .ofNat 32 textOffset, .ofNat 32 layout.text.length, layout.address⟩
  symtab := ⟨.symtab, .ofNat 32 layout.symbolOffset, .ofNat 32 layout.records.flatten.length, 0⟩
  strtab := ⟨.strtab, .ofNat 32 layout.stringOffset, 0, 0⟩

theorem select_sectionHeaders (layout : Layout) :
    Sections.select true layout.sectionHeaders = .ok layout.sections := by
  rfl

theorem length_records {part : List UInt8} (member : part ∈ layout.records) :
    part.length = Sections.symbolSize := by
  rw [records, List.mem_cons, List.mem_mapIdx] at member
  rcases member with rfl | ⟨index, inside, rfl⟩ <;> rfl

theorem length_text (layout : Layout) :
    layout.text.length = 4 * layout.code.length + layout.trailing.length := by
  rw [text, List.length_append, List.flatMap_def, length_flatten, List.length_map]
  intro part member
  obtain ⟨word, -, rfl⟩ := List.mem_map.mp member
  rfl

theorem stringTable_eq (symbols : List PlacedSymbol) (index : Nat)
    (inside : index < symbols.length) :
    stringTable symbols = stringTable (symbols.take index) ++
      ((symbols[index].name ++ [0]) ++
        (symbols.drop (index + 1)).flatMap fun symbol => symbol.name ++ [0]) := by
  have split : symbols.take index ++ (symbols[index] :: symbols.drop (index + 1)) = symbols := by
    rw [List.getElem_cons_drop, List.take_append_drop]
  calc
    stringTable symbols =
        stringTable (symbols.take index ++ (symbols[index] :: symbols.drop (index + 1))) := by
      rw [split]
    _ = _ := by
      rw [stringTable, List.flatMap_append, List.flatMap_cons, stringTable, List.cons_append]

theorem read_of_holds {strtab : Section} {symbol : PlacedSymbol} {position nameOffset : Nat}
    (held : image.Holds position (symbol.record nameOffset)) (bound : nameOffset < 2 ^ 32)
    (named : image.Holds (strtab.offset.toNat + nameOffset) (symbol.name ++ [0])) :
    Symbol.read image strtab position = .ok symbol.toSymbol := by
  have sectionIndex : image.Holds (position + 14) (halfBytes symbol.sectionIndex) := held.right
  have other : image.Holds (position + 13) [⟨symbol.other⟩] := held.left.right
  have info : image.Holds (position + 12) [⟨symbol.info⟩] := held.left.left.right
  have size : image.Holds (position + 8) (wordBytes symbol.size) := held.left.left.left.right
  have value : image.Holds (position + 4) (wordBytes symbol.value) :=
    held.left.left.left.left.right
  have offset := Image.wordAt_of_holds held.left.left.left.left.left
  have name : image.nameAt (strtab.offset.toNat + (BitVec.ofNat 32 nameOffset).toNat) =
      .ok (byteText symbol.name) := by
    rw [BitVec.toNat_ofNat, Nat.mod_eq_of_lt bound]
    exact Image.nameAt_of_holds named symbol.nonzero
  unfold Symbol.read
  simp only [offset, name, Image.wordAt_of_holds value, Image.wordAt_of_holds size,
    Image.byteAt_of_holds info, Image.byteAt_of_holds other, Image.halfAt_of_holds sectionIndex,
    Bind.bind, Except.bind, Pure.pure, Except.pure, PlacedSymbol.toSymbol]

def nullSymbol : PlacedSymbol :=
  ⟨[], 0, 0, 0, 0, 0, by simp⟩

theorem record_nullSymbol : nullSymbol.record 0 = List.replicate 16 0 := by
  decide

theorem Placed.read_headerTable (placed : layout.Placed image) :
    HeaderTable.read image = .ok layout.headerTable := by
  have offset : image.Holds 0x20 (wordBytes (.ofNat 32 layout.headerOffset)) := by
    simpa using placed.fileHeader.part 0x20 (by simp [length_fileHeader]) rfl
  have count : image.Holds 0x30 (halfBytes 5) := by
    simpa using placed.fileHeader.part 0x30 (by simp [length_fileHeader]) rfl
  have index : image.Holds 0x32 (halfBytes 4) := by
    simpa using placed.fileHeader.part 0x32 (by simp [length_fileHeader]) rfl
  rw [HeaderTable.read, Image.wordAt_of_holds offset]
  simp only [Bind.bind, Except.bind, Image.halfAt_of_holds count, Image.halfAt_of_holds index]
  rfl

section Placed

variable (placed : layout.Placed image) (small : image.size < 2 ^ 32)

include placed small

theorem Placed.toNat_headerOffset :
    layout.headerTable.offset.toNat = layout.headerOffset :=
  placed.headers.toNat_start small

theorem Placed.position (index : Nat) :
    layout.headerTable.position index =
      layout.headerOffset + HeaderTable.headerSize * index := by
  rw [HeaderTable.position, placed.toNat_headerOffset small, Nat.mul_comm]

theorem Placed.sectionHeader (index : Nat) (inside : index < layout.sectionHeaders.length) :
    layout.headerTable.headerAt image layout.namesOffset index =
      .ok layout.sectionHeaders[index] := by
  have named (before : Nat) (name : List UInt8)
      (fits : before + (name ++ [0]).length ≤ sectionNames.length)
      (found : (sectionNames.drop before).take (name ++ [0]).length = name ++ [0]) :
      image.Holds (layout.namesOffset + before) (name ++ [0]) :=
    placed.names.part before fits found
  have held := placed.headers.flatten (fun _ => length_headers) index inside
  rw [← placed.position small] at held
  have cases : index = 0 ∨ index = 1 ∨ index = 2 ∨ index = 3 ∨ index = 4 := by
    change index < 5 at inside
    omega
  rcases cases with rfl | rfl | rfl | rfl | rfl
  · exact HeaderTable.headerAt_of_holds rfl held (named 0 [] (by decide) rfl) (by decide)
  · exact HeaderTable.headerAt_of_holds rfl held
      (named 1 [46, 116, 101, 120, 116] (by decide) rfl) (by decide)
  · exact HeaderTable.headerAt_of_holds rfl held
      (named 7 [46, 115, 121, 109, 116, 97, 98] (by decide) rfl) (by decide)
  · exact HeaderTable.headerAt_of_holds rfl held
      (named 15 [46, 115, 116, 114, 116, 97, 98] (by decide) rfl) (by decide)
  · exact HeaderTable.headerAt_of_holds rfl held
      (named 23 [46, 115, 104, 115, 116, 114, 116, 97, 98] (by decide) rfl) (by decide)

theorem Placed.headerNames :
    layout.headerTable.namesOffset image = .ok layout.namesOffset := by
  have range : layout.headerOffset + 5 * HeaderTable.headerSize ≤ image.size := placed.headers.1
  have entry := placed.headers.flatten (fun _ => length_headers) 4 (Nat.lt_succ_self 4)
  have field : image.wordAt
      (layout.headerTable.position layout.headerTable.nameIndex.toNat + 16) =
        .ok (.ofNat 32 layout.namesOffset) := by
    rw [placed.position small]
    exact wordAt_of_holds_words entry 4 (by simp)
  have fits : checkRange layout.headerTable.offset.toNat
      (layout.headerTable.count.toNat * HeaderTable.headerSize) image.size = .ok () := by
    rw [placed.toNat_headerOffset small]
    exact if_pos range
  have inTable : layout.headerTable.nameIndex < layout.headerTable.count := by
    show (4 : BitVec 16) < 5
    decide
  rw [HeaderTable.namesOffset, fits]
  simp only [Bind.bind, Except.bind, if_pos inTable, field]
  rw [placed.names.toNat_start small]
  rfl

theorem Placed.headerScan :
    (layout.headerTable.headers image).result = .ok layout.sectionHeaders := by
  have filled : ¬ layout.headerTable.count = 0#16 := by
    show ¬ (5 : BitVec 16) = 0
    decide
  rw [HeaderTable.headers, if_neg filled, placed.headerNames small]
  exact (Scan.items_result_eq_ok_iff _ _ _).mpr ⟨rfl, placed.sectionHeader small⟩

theorem Placed.toNat_textSize : layout.sections.text.size.toNat = layout.text.length :=
  placed.text.toNat_length small

theorem Placed.toNat_symtabOffset :
    layout.sections.symtab.offset.toNat = layout.symbolOffset :=
  placed.records.toNat_start small

theorem Placed.toNat_symtabSize :
    layout.sections.symtab.size.toNat = layout.records.flatten.length :=
  placed.records.toNat_length small

theorem Placed.toNat_strtabOffset :
    layout.sections.strtab.offset.toNat = layout.stringOffset :=
  placed.strings.toNat_start small

theorem Placed.check : layout.sections.check image.size = .ok () := by
  have whole : layout.records.flatten.length % Sections.symbolSize = 0 := by
    rw [length_flatten fun _ => length_records]
    exact Nat.mul_mod_right _ _
  have textFits : checkRange layout.sections.text.offset.toNat layout.sections.text.size.toNat
      image.size = .ok () := by
    rw [placed.toNat_textSize small]
    exact if_pos placed.text.1
  have symbolsFit : checkRange layout.sections.symtab.offset.toNat
      layout.sections.symtab.size.toNat image.size = .ok () := by
    rw [placed.toNat_symtabOffset small, placed.toNat_symtabSize small]
    exact if_pos placed.records.1
  rw [Sections.check, textFits, symbolsFit, placed.toNat_symtabSize small]
  simp only [Bind.bind, Except.bind, ne_eq, whole, not_true_eq_false, if_false]
  rfl

theorem Placed.resolve : Sections.resolve image true = .ok layout.sections := by
  rw [Sections.resolve, placed.read_headerTable]
  simp only [Bind.bind, Except.bind, placed.headerScan small, select_sectionHeaders,
    placed.check small]
  rfl

theorem Placed.words :
    Object.words ⟨image, layout.sections⟩ =
      .ok (layout.code.mapIdx fun index word => (textOffset + 4 * index, word)) := by
  have short := layout.partialWord
  rw [Object.words_eq_ok_iff]
  refine ⟨?_, ?_⟩
  · rw [List.length_mapIdx, placed.toNat_textSize small, length_text]
    omega
  · intro index inside
    rw [List.getElem_mapIdx]
    exact ⟨rfl, wordAt_of_holds_words placed.text.left index (by simpa using inside)⟩

theorem Placed.code :
    Object.code ⟨image, layout.sections⟩ =
      .ok (CodeWord.sequence layout.address layout.code) := by
  have address : ∀ index, layout.sections.text.addressOf (textOffset + 4 * index) =
      layout.address + BitVec.ofNat 32 (4 * index) := by
    intro index
    exact Section.addressOf_offset_add layout.sections.text (4 * index)
  rw [Object.code, placed.words small, CodeWord.sequence_eq_mapIdx]
  apply congrArg Except.ok
  apply List.ext_getElem
  · rw [List.length_map, List.length_mapIdx, List.length_mapIdx]
  · intro index inside _
    rw [List.getElem_map, List.getElem_mapIdx, List.getElem_mapIdx, ← address]

theorem Placed.symbol (index : Nat) (inside : index < (nullSymbol :: layout.symbols).length) :
    Symbol.read image layout.sections.strtab
        (layout.sections.symtab.offset.toNat + index * Sections.symbolSize) =
      .ok (nullSymbol :: layout.symbols)[index].toSymbol := by
  have strtab := placed.toNat_strtabOffset small
  have held := placed.records.flatten (fun _ => length_records) index
    (by simpa [Layout.records] using inside)
  rw [placed.toNat_symtabOffset small, Nat.mul_comm]
  cases index with
  | zero =>
    have first : image.Holds (layout.symbolOffset + Sections.symbolSize * 0)
        (nullSymbol.record 0) := by
      rw [record_nullSymbol]
      exact held
    have empty : image.Holds layout.stringOffset ([0] ++ _) := placed.strings
    exact read_of_holds first (by decide) (by rw [strtab]; exact empty.left)
  | succ index =>
    have within : index < layout.symbols.length := by simpa using inside
    have names := placed.strings
    rw [stringTable_eq layout.symbols index within] at names
    have name := names.right.left
    have before := name.1
    simp only [Layout.records, List.getElem_cons_succ, List.getElem_mapIdx] at held
    exact read_of_holds held (by omega) (by rw [strtab]; exact name)

theorem Placed.symbols :
    Object.symbols ⟨image, layout.sections⟩ =
      .ok (Symbol.null :: layout.symbols.map PlacedSymbol.toSymbol) := by
  have length : layout.records.flatten.length = Sections.symbolSize * layout.records.length :=
    length_flatten fun _ => length_records
  have count : layout.records.length = layout.symbols.length + 1 := by
    simp [Layout.records]
  have all : Symbol.null :: layout.symbols.map PlacedSymbol.toSymbol =
      (nullSymbol :: layout.symbols).map PlacedSymbol.toSymbol := rfl
  rw [all]
  refine (Scan.items_result_eq_ok_iff _ _ _).mpr ⟨?_, ?_⟩
  · rw [placed.toNat_symtabSize small, length, count, List.length_map, List.length_cons,
      Sections.symbolSize]
    omega
  · intro index inside
    rw [List.getElem_map]
    exact placed.symbol small index (by simpa using inside)

end Placed

theorem parse_bytes_eq (layout : Layout) (small : layout.bytes.size < 2 ^ 32) :
    Object.parse layout.bytes true = .ok ⟨⟨layout.bytes⟩, layout.sections⟩ := by
  have magic : (layout.bytes.extract 0 4).toList = Image.magic := by
    simp [bytes, fileHeader, Image.magic]
  rw [Object.parse, Image.ofBytes, if_pos magic]
  simp only [Bind.bind, Except.bind, layout.placed_bytes.resolve small]
  rfl

/-- Reading undoes the layout of an object: the code, its words with their positions, and the
symbols behind an empty one are those that the object was made from. -/
theorem parse_bytes (layout : Layout) (small : layout.bytes.size < 2 ^ 32) :
    ∃ object, Object.parse layout.bytes true = .ok object ∧
      object.sections.text.address = layout.address ∧
      object.sections.text.offset.toNat = 52 ∧
      object.sections.text.size.toNat = 4 * layout.code.length + layout.trailing.length ∧
      object.words = .ok (layout.code.mapIdx fun index word => (52 + 4 * index, word)) ∧
      object.symbols = .ok (Symbol.null :: layout.symbols.map PlacedSymbol.toSymbol) := by
  have placed := layout.placed_bytes
  have bound : Image.size ⟨layout.bytes⟩ < 2 ^ 32 := small
  refine ⟨⟨⟨layout.bytes⟩, layout.sections⟩, parse_bytes_eq layout small, rfl, rfl, ?_,
    placed.words bound, placed.symbols bound⟩
  rw [placed.toNat_textSize bound, length_text]

def sample : Layout :=
  ⟨0x10074, [0x00400513, 0xffdff06f], [1, 2],
    [⟨[109, 97, 105, 110], 0x10074, 8, 0x12, 0, 1, by decide⟩,
     ⟨[0xe9], 0xffffffff, 70000, 0xff, 3, 0xfff1, by decide⟩], by decide⟩

theorem parse_bytes_sample :
    sample.bytes.size < 2 ^ 32 ∧ ∃ object, Object.parse sample.bytes true = .ok object ∧
      object.sections.text.address = 0x10074 ∧ object.sections.text.offset.toNat = 52 ∧
      object.sections.text.size.toNat = 10 ∧
      object.words = .ok [(52, 0x00400513), (56, 0xffdff06f)] ∧
      object.symbols = .ok (Symbol.null :: sample.symbols.map PlacedSymbol.toSymbol) :=
  ⟨by decide +kernel, parse_bytes sample (by decide +kernel)⟩

end Layout

end RiscvListing.Elf
