import RiscvListing.Proofs.Elf.Diagnosis
import RiscvListing.Proofs.Elf.Transcript

namespace RiscvListing.Elf

namespace Image

variable (image : Image)

theorem diagnosed_byteAt (start : Nat) :
    Diagnosed (image.byteAt start) [.range start 1 image.size] :=
  (diagnosed_checkRange start 1 image.size).map _

theorem diagnosed_nameAt (start : Nat) :
    Diagnosed (image.nameAt start) [.nameStart start image.size] :=
  .single (fun inside => ⟨_, image.nameAt_of_le start inside⟩) fun outside =>
    image.nameAt_of_lt start (Nat.not_le.mp outside)

/-- What has to hold for a record to be read, in the order in which it is looked at. The name is
looked up before the other fields are. -/
def recordConditions (names position : Nat) : List Condition :=
  [.range position 4 image.size,
    .nameStart (names + image.littleEndian position 4) image.size,
    .range (position + 4) 4 image.size,
    .range (position + 8) 4 image.size,
    .range (position + 12) 1 image.size,
    .range (position + 13) 1 image.size,
    .range (position + 14) 2 image.size]

theorem diagnosed_readSymbol (strtab : Section) (position : Nat) :
    Diagnosed (Symbol.read image strtab position)
      (image.recordConditions strtab.offset.toNat position) := by
  refine (image.diagnosed_wordAt position).bind fun nameOffset read => ?_
  obtain ⟨-, rfl⟩ := (image.wordAt_eq_ok_iff position nameOffset).mp read
  rw [toNat_word]
  refine (image.diagnosed_nameAt _).bind fun name _ => ?_
  refine (image.diagnosed_wordAt (position + 4)).bind fun value _ => ?_
  refine (image.diagnosed_wordAt (position + 8)).bind fun size _ => ?_
  refine (image.diagnosed_byteAt (position + 12)).bind fun info _ => ?_
  refine (image.diagnosed_byteAt (position + 13)).bind fun other _ => ?_
  exact (image.diagnosed_halfAt (position + 14)).map _

/-- A record is read when all of it and the start of its name lie inside the file. -/
structure Readable (names position : Nat) : Prop where
  record : position + 16 ≤ image.size
  name : names + image.littleEndian position 4 ≤ image.size

theorem readable_iff (names position : Nat) :
    image.Readable names position ↔
      ∀ condition ∈ image.recordConditions names position, condition.holds := by
  constructor
  · intro readable condition member
    have record := readable.record
    have name := readable.name
    simp only [recordConditions, List.mem_cons, List.not_mem_nil, or_false] at member
    rcases member with rfl | rfl | rfl | rfl | rfl | rfl | rfl
    all_goals
      simp only [Condition.range, Condition.nameStart]
      omega
  · intro all
    have name := all (.nameStart (names + image.littleEndian position 4) image.size)
      (by simp [recordConditions])
    have last := all (.range (position + 14) 2 image.size) (by simp [recordConditions])
    exact ⟨last, name⟩

/-- The symbol that a record describes. -/
structure Describes (names position : Nat) (symbol : Symbol) : Prop where
  name : symbol.name = byteText (image.nameBytes (names + image.littleEndian position 4))
  value : symbol.value.toNat = image.littleEndian (position + 4) 4
  size : symbol.size.toNat = image.littleEndian (position + 8) 4
  info : symbol.info.toNat = image.littleEndian (position + 12) 1
  other : symbol.other.toNat = image.littleEndian (position + 13) 1
  sectionIndex : symbol.sectionIndex.toNat = image.littleEndian (position + 14) 2

theorem describes_symbolAt (names position : Nat) :
    image.Describes names position (image.symbolAt names position) where
  name := by rw [symbolAt, toNat_word]
  value := image.toNat_word (position + 4)
  size := image.toNat_word (position + 8)
  info := image.toNat_byte (position + 12)
  other := image.toNat_byte (position + 13)
  sectionIndex := image.toNat_half (position + 14)

end Image

namespace Symbol

variable {image : Image} {symtab strtab : Section}

theorem read_of_readable {position : Nat}
    (readable : image.Readable strtab.offset.toNat position) :
    read image strtab position = .ok (image.symbolAt strtab.offset.toNat position) := by
  have name := readable.name
  rw [← Image.toNat_word] at name
  exact read_of_le readable.record name

theorem readable_of_read {position : Nat} {symbol : Symbol}
    (found : read image strtab position = .ok symbol) :
    image.Readable strtab.offset.toNat position :=
  (image.readable_iff _ _).mpr ((image.diagnosed_readSymbol strtab position).holds_of_eq_ok found)

/-- The records that a section has, where one that is cut off at the end counts as a whole one. -/
def recordCount (symtab : Section) : Nat :=
  (symtab.size.toNat + 15) / 16

def recordPosition (symtab : Section) (index : Nat) : Nat :=
  symtab.offset.toNat + 16 * index

theorem scan_eq (image : Image) (symtab strtab : Section) :
    scan image symtab strtab =
      .items (fun index => read image strtab (recordPosition symtab index))
        (recordCount symtab) := by
  simp only [scan, recordPosition, recordCount, Sections.symbolSize, Nat.mul_comm]

theorem scan_of_readable
    (readable : ∀ index < recordCount symtab,
      image.Readable strtab.offset.toNat (recordPosition symtab index)) :
    (scan image symtab strtab).result =
      .ok ((List.range (recordCount symtab)).map fun index =>
        image.symbolAt strtab.offset.toNat (recordPosition symtab index)) := by
  rw [scan_eq, Scan.items_result_eq_ok_iff]
  refine ⟨by simp, ?_⟩
  intro index inside
  rw [List.length_map, List.length_range] at inside
  rw [List.getElem_map, List.getElem_range]
  exact read_of_readable (readable index inside)

theorem readable_of_scan {symbols : List Symbol}
    (found : (scan image symtab strtab).result = .ok symbols) (index : Nat)
    (inside : index < recordCount symtab) :
    image.Readable strtab.offset.toNat (recordPosition symtab index) := by
  rw [scan_eq, Scan.items_result_eq_ok_iff] at found
  obtain ⟨length, reads⟩ := found
  exact readable_of_read (reads index (by omega))

theorem scan_eq_error_iff (error : Error) :
    (scan image symtab strtab).result = .error error ↔
      ∃ index < recordCount symtab,
        (∀ earlier < index,
          image.Readable strtab.offset.toNat (recordPosition symtab earlier)) ∧
        ∃ condition, FirstViolated
          (image.recordConditions strtab.offset.toNat (recordPosition symtab index)) condition ∧
          condition.error = error := by
  rw [scan_eq, Scan.items_result_eq_error_iff]
  constructor
  · rintro ⟨index, inside, failed, before⟩
    have cause := ((image.diagnosed_readSymbol strtab _).eq_error_iff error).mp failed
    refine ⟨index, inside, ?_, cause⟩
    intro earlier less
    obtain ⟨symbol, found⟩ := before earlier less
    exact readable_of_read found
  · rintro ⟨index, inside, before, cause⟩
    have failed := ((image.diagnosed_readSymbol strtab _).eq_error_iff error).mpr cause
    refine ⟨index, inside, failed, ?_⟩
    intro earlier less
    exact ⟨_, read_of_readable (before earlier less)⟩

/-- The symbols of a section about which nothing is known. They are read exactly when all records
and their names can be, and otherwise the first failing step of the first failing record is
complained about. -/
theorem scan_exactly (image : Image) (symtab strtab : Section) :
    ((∃ symbols, (scan image symtab strtab).result = .ok symbols) ↔
      ∀ index < recordCount symtab,
        image.Readable strtab.offset.toNat (recordPosition symtab index)) ∧
    (∀ symbols, (scan image symtab strtab).result = .ok symbols →
      symbols.length = recordCount symtab ∧
      ∀ (index : Nat) (inside : index < symbols.length),
        image.Describes strtab.offset.toNat (recordPosition symtab index) symbols[index]) ∧
    (¬16 ∣ symtab.size.toNat →
      recordPosition symtab (recordCount symtab - 1) < symtab.stop ∧
      symtab.stop < recordPosition symtab (recordCount symtab - 1) + 16) ∧
    ∀ error, (scan image symtab strtab).result = .error error ↔
      ∃ index < recordCount symtab,
        (∀ earlier < index,
          image.Readable strtab.offset.toNat (recordPosition symtab earlier)) ∧
        ∃ condition, FirstViolated
          (image.recordConditions strtab.offset.toNat (recordPosition symtab index)) condition ∧
          condition.error = error := by
  refine ⟨⟨?_, ?_⟩, ?_, ?_, scan_eq_error_iff⟩
  · rintro ⟨symbols, found⟩
    exact readable_of_scan found
  · intro readable
    exact ⟨_, scan_of_readable readable⟩
  · intro symbols found
    rw [scan_of_readable (readable_of_scan found)] at found
    cases found
    refine ⟨by simp, ?_⟩
    intro index inside
    rw [List.getElem_map, List.getElem_range]
    exact image.describes_symbolAt _ _
  · intro ragged
    rw [recordPosition, recordCount, Section.stop]
    omega

end Symbol

end RiscvListing.Elf
