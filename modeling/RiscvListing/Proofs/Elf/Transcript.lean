import RiscvListing.Proofs.Elf.Record
import RiscvListing.Proofs.Elf.RoundTrip

namespace RiscvListing.Elf

namespace Image

variable (image : Image) (start : Nat)

theorem wordBytes_word :
    wordBytes (image.word start) =
      [⟨image.byte start⟩, ⟨image.byte (start + 1)⟩, ⟨image.byte (start + 2)⟩,
        ⟨image.byte (start + 3)⟩] := by
  have value := image.toNat_word start
  have first := (image.byte start).isLt
  have second := (image.byte (start + 1)).isLt
  have third := (image.byte (start + 2)).isLt
  have fourth := (image.byte (start + 3)).isLt
  simp only [littleEndian, Nat.add_assoc, Nat.reduceAdd] at value
  have part : ∀ (place : Nat) (byte : BitVec 8),
      (image.word start).toNat / 2 ^ place % 256 = byte.toNat →
      (image.word start).extractLsb' place 8 = byte := by
    intro place byte digit
    apply BitVec.eq_of_toNat_eq
    rw [BitVec.extractLsb'_toNat, Nat.shiftRight_eq_div_pow]
    exact digit
  rw [wordBytes, part 0 (image.byte start) (by omega), part 8 (image.byte (start + 1)) (by omega),
    part 16 (image.byte (start + 2)) (by omega), part 24 (image.byte (start + 3)) (by omega)]

theorem take_drop_bytes {count : Nat} (inside : start + count ≤ image.size) :
    (image.bytes.toList.drop start).take count =
      (List.range count).map fun place => ⟨image.byte (start + place)⟩ := by
  have length : image.bytes.toList.length = image.size := Array.length_toList
  apply List.ext_getElem
  · rw [List.length_take, List.length_drop, List.length_map, List.length_range]
    omega
  · intro place _ within
    rw [List.length_map, List.length_range] at within
    have byte := image.byte_eq_getElem (by omega : start + place < image.bytes.toList.length)
    rw [List.getElem_take, List.getElem_drop, List.getElem_map, List.getElem_range, byte]

theorem flatMap_wordBytes {count : Nat} (inside : start + 4 * count ≤ image.size) :
    (List.range count).flatMap (fun index => wordBytes (image.word (start + 4 * index))) =
      (image.bytes.toList.drop start).take (4 * count) := by
  induction count with
  | zero => rfl
  | succ count ih =>
    have last : wordBytes (image.word (start + 4 * count)) =
        (image.bytes.toList.drop (start + 4 * count)).take 4 := by
      rw [image.take_drop_bytes (start + 4 * count) (by omega), wordBytes_word]
      rfl
    rw [List.range_succ, List.flatMap_append, ih (by omega), List.flatMap_singleton, last,
      Nat.mul_succ, List.take_add, List.drop_drop]

end Image

/-- How code that was read follows from the bytes of the file: the whole words of its section, at
addresses that count up from the address of the section and wrap around. -/
structure Transcribes (bytes : Bytes) (text : Section) (code : List CodeWord) : Prop where
  length : code.length = text.size.toNat / 4
  word : ∀ (index : Nat) (inside : index < code.length),
    code[index].word.toNat = Image.littleEndian ⟨bytes⟩ (text.offset.toNat + 4 * index) 4
  address : ∀ (index : Nat) (inside : index < code.length),
    code[index].address.toNat = (text.address.toNat + 4 * index) % 2 ^ 32
  distinct : (code.map CodeWord.address).Nodup
  ascending : (code.map CodeWord.address).Pairwise (· < ·) ↔
    code.length ≤ 1 ∨ text.address.toNat + 4 * (code.length - 1) < 2 ^ 32
  bytes : code.flatMap (fun word => wordBytes word.word) =
    (bytes.toList.drop text.offset.toNat).take (4 * (text.size.toNat / 4))

theorem pairwise_address_iff {code : List CodeWord} {start : Nat} (low : start < 2 ^ 32)
    (few : 4 * code.length < 2 ^ 32 + 4)
    (address : ∀ (index : Nat) (inside : index < code.length),
      code[index].address.toNat = (start + 4 * index) % 2 ^ 32) :
    (code.map CodeWord.address).Pairwise (· < ·) ↔
      code.length ≤ 1 ∨ start + 4 * (code.length - 1) < 2 ^ 32 := by
  rw [List.pairwise_map, List.pairwise_iff_getElem]
  constructor
  · intro ascending
    rcases Nat.lt_or_ge 1 code.length with several | one
    · have ends := ascending 0 (code.length - 1) (by omega) (by omega) (by omega)
      have first := address 0 (by omega)
      have last := address (code.length - 1) (by omega)
      rw [BitVec.lt_def] at ends
      omega
    · exact .inl one
  · intro unwrapped first second inFirst inSecond before
    have lower := address first inFirst
    have upper := address second inSecond
    rw [BitVec.lt_def]
    omega

namespace Object

variable {object : Object}

theorem word_of_code {code : List CodeWord} (read : object.code = .ok code) {index : Nat}
    (inside : index < code.length) :
    code[index].word = object.image.word (object.sections.text.offset.toNat + 4 * index) := by
  have found := ((code_of_eq_ok read).2 index inside).2
  exact ((object.image.wordAt_eq_ok_iff _ _).mp found).2

theorem toNat_address_of_code {code : List CodeWord} (read : object.code = .ok code) {index : Nat}
    (inside : index < code.length) :
    code[index].address.toNat = (object.sections.text.address.toNat + 4 * index) % 2 ^ 32 := by
  have found := ((code_of_eq_ok read).2 index inside).1
  rw [found, BitVec.toNat_add, BitVec.toNat_ofNat, Nat.add_mod_mod]

theorem transcribes_of_code (checked : object.Checked) {code : List CodeWord}
    (read : object.code = .ok code) :
    Transcribes object.image.bytes object.sections.text code where
  length := (code_of_eq_ok read).1
  word := by
    intro index inside
    rw [word_of_code read inside, Image.toNat_word]
  address := fun index inside => toNat_address_of_code read inside
  distinct := nodup_address_of_code read
  ascending := by
    have count := (code_of_eq_ok read).1
    have bound := object.sections.text.size.isLt
    exact pairwise_address_iff object.sections.text.address.isLt (by omega)
      fun index inside => toNat_address_of_code read inside
  bytes := by
    have count := (code_of_eq_ok read).1
    have fits := checked.text
    rw [Section.stop] at fits
    have words : code.map CodeWord.word =
        (List.range (object.sections.text.size.toNat / 4)).map fun index =>
          object.image.word (object.sections.text.offset.toNat + 4 * index) := by
      apply List.ext_getElem
      · rw [List.length_map, List.length_map, List.length_range, count]
      · intro index inside _
        rw [List.length_map] at inside
        rw [List.getElem_map, List.getElem_map, List.getElem_range, word_of_code read inside]
    rw [← List.flatMap_map, words, List.flatMap_map]
    exact object.image.flatMap_wordBytes _ (by omega)

/-- A file that was parsed has code, which is what stands in its section. -/
theorem code_of_parse {bytes : Bytes} {strict : Bool}
    (parsed : parse bytes strict = .ok object) :
    ∃ code, object.code = .ok code ∧ Transcribes bytes object.sections.text code := by
  have checked := checked_of_parse parsed
  obtain ⟨-, image, -⟩ := (parse_eq_ok_iff bytes strict object).mp parsed
  obtain ⟨code, read⟩ := code_of_checked checked
  have transcribed := transcribes_of_code checked read
  rw [image] at transcribed
  exact ⟨code, read, transcribed⟩

def lowCode : Layout :=
  ⟨8, [0x00400513, 0xffdff06f], [0x6f, 0xf0], [], by decide⟩

def highCode : Layout :=
  ⟨0xfffffffc, [0x00400513, 0xffdff06f], [1, 2, 3], [], by decide⟩

theorem code_of_parse_low_high :
    (∃ object code, parse lowCode.bytes true = .ok object ∧ object.code = .ok code ∧
      Transcribes lowCode.bytes object.sections.text code) ∧
    ∃ object code, parse highCode.bytes true = .ok object ∧ object.code = .ok code ∧
      Transcribes highCode.bytes object.sections.text code := by
  have low := lowCode.parse_bytes_eq (by decide +kernel)
  have high := highCode.parse_bytes_eq (by decide +kernel)
  obtain ⟨lowWords, lowRead, lowTranscribed⟩ := code_of_parse low
  obtain ⟨highWords, highRead, highTranscribed⟩ := code_of_parse high
  exact ⟨⟨_, lowWords, low, lowRead, lowTranscribed⟩, _, highWords, high, highRead,
    highTranscribed⟩

end Object

end RiscvListing.Elf
