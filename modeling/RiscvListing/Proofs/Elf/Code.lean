import RiscvListing.Proofs.Elf.Reading

namespace RiscvListing

theorem CodeWord.sequence_eq_mapIdx (address : Address) (words : List Word) :
    sequence address words =
      words.mapIdx fun index word => ⟨address + BitVec.ofNat 32 (4 * index), word⟩ := by
  induction words generalizing address with
  | nil => rfl
  | cons word words ih =>
    have later : ∀ index, address + 4 + BitVec.ofNat 32 (4 * index) =
        address + BitVec.ofNat 32 (4 * (index + 1)) := by
      intro index
      rw [Nat.mul_succ, Nat.add_comm, BitVec.ofNat_add, BitVec.add_assoc]
      rfl
    rw [sequence, ih, List.mapIdx_cons]
    simp only [later, Nat.mul_zero, BitVec.add_zero]

namespace Elf

theorem Section.addressOf_offset_add (part : Section) (distance : Nat) :
    part.addressOf (part.offset.toNat + distance) =
      part.address + BitVec.ofNat 32 distance := by
  rw [addressOf, BitVec.ofNat_add, BitVec.ofNat_toNat, BitVec.setWidth_eq,
    BitVec.add_comm part.offset, BitVec.add_assoc, BitVec.add_comm part.offset,
    BitVec.sub_add_cancel, BitVec.add_comm]

namespace Object

theorem words_eq_ok_iff (object : Object) (found : List (Nat × Word)) :
    object.words = .ok found ↔
      found.length = object.sections.text.size.toNat / 4 ∧
        ∀ (index : Nat) (inside : index < found.length),
          found[index].1 = object.sections.text.offset.toNat + 4 * index ∧
            object.image.wordAt found[index].1 = .ok found[index].2 := by
  rw [words, Scan.items_result_eq_ok_iff]
  refine and_congr_right fun _ => forall_congr' fun index => forall_congr' fun inside => ?_
  rw [bind_eq_ok_iff]
  constructor
  · intro pairRead
    obtain ⟨word, read, pair⟩ := pairRead
    have same := Except.ok.inj pair
    rw [← same]
    exact ⟨rfl, read⟩
  · intro fields
    obtain ⟨position, read⟩ := fields
    refine ⟨found[index].2, ?_, ?_⟩
    · rw [← position]
      exact read
    · rw [← position]
      rfl

theorem code_of_eq_ok {object : Object} {code : List CodeWord} (read : object.code = .ok code) :
    code.length = object.sections.text.size.toNat / 4 ∧
      ∀ (index : Nat) (inside : index < code.length),
        code[index].address =
            object.sections.text.address + BitVec.ofNat 32 (4 * index) ∧
          object.image.wordAt (object.sections.text.offset.toNat + 4 * index) =
            .ok code[index].word := by
  obtain ⟨found, words, made⟩ := (bind_eq_ok_iff _ _ _).mp read
  obtain ⟨length, reads⟩ := (words_eq_ok_iff object found).mp words
  cases made
  refine ⟨by simpa using length, ?_⟩
  intro index inside
  obtain ⟨position, word⟩ := reads index (by simpa using inside)
  rw [List.getElem_map]
  refine ⟨?_, ?_⟩
  · simp only [position]
    exact Section.addressOf_offset_add _ _
  · rw [← position]
    exact word

/-- No two words of the code have the same address, also where the addresses wrap around. -/
theorem nodup_address_of_code {object : Object} {code : List CodeWord}
    (read : object.code = .ok code) : (code.map CodeWord.address).Nodup := by
  obtain ⟨length, words⟩ := code_of_eq_ok read
  have bound := object.sections.text.size.isLt
  rw [List.Nodup, List.pairwise_map, List.pairwise_iff_getElem]
  intro first second inFirst inSecond before same
  rw [(words first inFirst).1, (words second inSecond).1] at same
  have distance := congrArg BitVec.toNat (BitVec.add_right_inj _ |>.mp same)
  rw [BitVec.toNat_ofNat, BitVec.toNat_ofNat] at distance
  omega

end Object

end Elf

end RiscvListing
