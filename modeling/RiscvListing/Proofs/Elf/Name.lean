import RiscvListing.Proofs.Elf.ReadSet

namespace RiscvListing.Elf

theorem toNat_ofNat_byte (byte : UInt8) : (Char.ofNat byte.toNat).toNat = byte.toNat := by
  have small := byte.toNat_lt
  have valid : byte.toNat.isValidChar := .inl (by omega)
  rw [Char.ofNat, dif_pos valid]
  rfl

/-- A name as the bytes from a position on have it: one character for each byte, none of them zero,
up to a zero byte or to the end of the file. -/
structure Spelled (image : Image) (start : Nat) (name : String) : Prop where
  nonzero : Char.ofNat 0 ∉ name.toList
  characters : ∀ (index : Nat) (inside : index < name.toList.length),
    image.bytes[start + index]?.map UInt8.toNat = some name.toList[index].toNat
  ends : start + name.length = image.size ∨ image.bytes[start + name.length]? = some 0

namespace Spelled

variable {image : Image} {start : Nat} {name other : String}

theorem stop_le (spelled : Spelled image start name) : start + name.length ≤ image.size := by
  rcases spelled.ends with last | zero
  · exact Nat.le_of_eq last
  · obtain ⟨inside, -⟩ := Array.getElem?_eq_some_iff.mp zero
    exact Nat.le_of_lt inside

theorem length_le (spelled : Spelled image start name) (also : Spelled image start other) :
    other.length ≤ name.length := by
  rcases Nat.lt_or_ge name.length other.length with longer | shorter
  · have inside : name.length < other.toList.length := by
      rwa [String.length_toList]
    have bound := also.stop_le
    rcases spelled.ends with last | zero
    · omega
    · have character := also.characters name.length inside
      rw [zero, Option.map_some, Option.some.injEq] at character
      have member := List.getElem_mem inside
      rw [← Char.ofNat_toNat other.toList[name.length], ← character] at member
      exact absurd member also.nonzero
  · exact shorter

theorem unique (spelled : Spelled image start name) (also : Spelled image start other) :
    other = name := by
  apply String.toList_inj.mp
  apply List.ext_getElem
  · rw [String.length_toList, String.length_toList]
    exact Nat.le_antisymm (spelled.length_le also) (also.length_le spelled)
  · intro index inOther inName
    have character := also.characters index inOther
    rw [spelled.characters index inName, Option.some.injEq] at character
    exact Char.toNat_inj.mp character.symm

theorem drop (spelled : Spelled image start name) {count : Nat} (few : count ≤ name.length) :
    Spelled image (start + count) (String.ofList (name.toList.drop count)) where
  nonzero := by
    rw [String.toList_ofList]
    intro member
    exact spelled.nonzero (List.mem_of_mem_drop member)
  characters := by
    intro index inside
    simp only [String.toList_ofList, List.getElem_drop, Nat.add_assoc]
    exact spelled.characters (count + index) _
  ends := by
    have stop : start + count + (name.length - count) = start + name.length := by omega
    rw [String.length_ofList, List.length_drop, String.length_toList, stop]
    exact spelled.ends

end Spelled

namespace Image

variable (image : Image) (start : Nat)

theorem getElem?_nameBytes {index : Nat} (inside : index < (image.nameBytes start).length) :
    image.bytes[start + index]? = some (image.nameBytes start)[index] := by
  have shared : image.nameBytes start <+: image.bytes.toList.drop start :=
    List.takeWhile_prefix _
  rw [← Array.getElem?_toList, ← List.getElem?_drop, shared.getElem inside]
  exact List.getElem?_eq_getElem _

theorem ne_zero_of_mem_nameBytes {byte : UInt8} (member : byte ∈ image.nameBytes start) :
    byte ≠ 0 := by
  have all := List.all_eq_true.mp List.all_takeWhile byte member
  exact of_decide_eq_true all

theorem spelled_nameBytes (inside : start ≤ image.size) :
    Spelled image start (byteText (image.nameBytes start)) where
  nonzero := by
    rw [byteText, String.toList_ofList]
    intro member
    obtain ⟨byte, found, zero⟩ := List.mem_map.mp member
    have code := congrArg Char.toNat zero
    rw [toNat_ofNat_byte] at code
    exact image.ne_zero_of_mem_nameBytes start found (UInt8.toNat_inj.mp code)
  characters := by
    intro index within
    simp only [byteText, String.toList_ofList, List.length_map] at within
    simp only [byteText, String.toList_ofList, List.getElem_map, toNat_ofNat_byte,
      image.getElem?_nameBytes start within, Option.map_some]
  ends := by
    have stop : start + (byteText (image.nameBytes start)).length = image.nameEnd start := by
      rw [byteText, String.length_ofList, List.length_map, nameEnd]
    have bound := nameEnd_le inside
    rw [stop]
    rcases image.getElem?_nameEnd start with none | zero
    · have past := Array.getElem?_eq_none_iff.mp none
      exact .inl (Nat.le_antisymm bound past)
    · exact .inr zero

/-- Every position of the file, and the one behind its last byte, starts exactly one name, which
other names may share an end with. Behind that there is none. -/
theorem nameAt_spelled :
    (image.size < start → image.nameAt start = .error (.invalidOffset start)) ∧
    (start ≤ image.size → ∃ name, image.nameAt start = .ok name ∧ Spelled image start name ∧
      (∀ other, Spelled image start other → other = name) ∧
      ∀ count, count ≤ name.length →
        image.nameAt (start + count) = .ok (String.ofList (name.toList.drop count))) := by
  refine ⟨image.nameAt_of_lt start, ?_⟩
  intro inside
  have spelled := image.spelled_nameBytes start inside
  refine ⟨_, image.nameAt_of_le start inside, spelled, fun other also => spelled.unique also, ?_⟩
  intro count few
  have tail := spelled.drop few
  have within : start + count ≤ image.size := by
    have bound := spelled.stop_le
    omega
  rw [image.nameAt_of_le (start + count) within,
    tail.unique (image.spelled_nameBytes (start + count) within)]

def mergedNames : Image :=
  ⟨#[0x7f, 0x45, 0x4c, 0x46, 46, 114, 101, 108, 97, 46, 116, 101, 120, 116, 0, 0xe9]⟩

theorem mergedNames_spelled :
    mergedNames.nameAt 4 = .ok ".rela.text" ∧ mergedNames.nameAt 9 = .ok ".text" ∧
      mergedNames.nameAt 14 = .ok "" ∧ Spelled mergedNames 15 "é" ∧
      mergedNames.nameAt 16 = .ok "" ∧ mergedNames.nameAt 17 = .error (.invalidOffset 17) := by
  obtain ⟨name, read, -, -, tails⟩ := (mergedNames.nameAt_spelled 4).2 (by decide)
  obtain ⟨last, readLast, spelledLast, -, tailsLast⟩ :=
    (mergedNames.nameAt_spelled 15).2 (by decide)
  have whole : name = ".rela.text" := Except.ok.inj (read.symm.trans rfl)
  have single : last = "é" := Except.ok.inj (readLast.symm.trans rfl)
  subst name last
  exact ⟨read, tails 5 (by decide), tails 10 (by decide), spelledLast, tailsLast 1 (by decide),
    (mergedNames.nameAt_spelled 17).1 (by decide)⟩

end Image

end RiscvListing.Elf
