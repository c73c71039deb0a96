import RiscvListing.Proofs.Elf.Content

namespace RiscvListing.Elf

theorem checkRange_bind_eq_ok_iff {α : Type} (start count length : Nat)
    (next : Unit → Except Error α) (result : α) :
    checkRange start count length >>= next = .ok result ↔
      start + count ≤ length ∧ next () = .ok result := by
  by_cases inside : start + count ≤ length
  · rw [checkRange, if_pos inside]
    simp [inside, Bind.bind, Except.bind]
  · rw [checkRange, if_neg inside]
    simp [inside, Bind.bind, Except.bind]

theorem toNat_append_byte {width : Nat} (high : BitVec width) (low : BitVec 8) :
    (high ++ low).toNat = low.toNat + 256 * high.toNat := by
  rw [BitVec.toNat_append, ← Nat.shiftLeft_add_eq_or_of_lt low.isLt, Nat.shiftLeft_eq]
  omega

namespace Image

def half (image : Image) (start : Nat) : BitVec 16 :=
  image.byte (start + 1) ++ image.byte start

/-- The word that the file has at a position, of which nothing is checked. -/
def word (image : Image) (start : Nat) : Word :=
  image.byte (start + 3) ++ image.byte (start + 2) ++ image.byte (start + 1) ++ image.byte start

def nameBytes (image : Image) (start : Nat) : List UInt8 :=
  (image.bytes.toList.drop start).takeWhile (· ≠ 0)

variable (image : Image) (start : Nat)

theorem toNat_byte : (image.byte start).toNat = image.littleEndian start 1 := by
  rw [littleEndian, littleEndian, Nat.mul_zero, Nat.add_zero]

theorem toNat_half : (image.half start).toNat = image.littleEndian start 2 := by
  rw [half, toNat_append_byte, image.toNat_byte (start + 1)]
  rfl

theorem toNat_word : (image.word start).toNat = image.littleEndian start 4 := by
  simp only [word, toNat_append_byte, littleEndian, Nat.add_assoc, Nat.mul_zero, Nat.add_zero,
    Nat.reduceAdd]

theorem read_eq_ok_iff {α : Type} (count : Nat) (field value : α) :
    (checkRange start count image.size >>= fun _ => Except.ok field) = .ok value ↔
      start + count ≤ image.size ∧ value = field := by
  rw [checkRange_bind_eq_ok_iff, Except.ok.injEq, eq_comm]

theorem byteAt_eq_ok_iff (value : BitVec 8) :
    image.byteAt start = .ok value ↔ start + 1 ≤ image.size ∧ value = image.byte start :=
  image.read_eq_ok_iff start 1 (image.byte start) value

theorem halfAt_eq_ok_iff (value : BitVec 16) :
    image.halfAt start = .ok value ↔ start + 2 ≤ image.size ∧ value = image.half start :=
  image.read_eq_ok_iff start 2 (image.half start) value

theorem wordAt_eq_ok_iff (value : Word) :
    image.wordAt start = .ok value ↔ start + 4 ≤ image.size ∧ value = image.word start :=
  image.read_eq_ok_iff start 4 (image.word start) value

theorem byte_eq_getElem {position : Nat} (inside : position < image.bytes.toList.length) :
    image.byte position = image.bytes.toList[position].toBitVec := by
  simp only [Array.length_toList] at inside
  simp [byte, Array.getD, inside]

theorem charactersFrom_eq (count : Nat) (all : start + count = image.size) :
    image.charactersFrom start count =
      (image.nameBytes start).map fun byte => Char.ofNat byte.toNat := by
  induction count generalizing start with
  | zero =>
    have none : image.bytes.toList.drop start = [] := by
      rw [List.drop_eq_nil_iff, Array.length_toList]
      exact Nat.le_of_eq all.symm
    rw [charactersFrom, nameBytes, none]
    rfl
  | succ count ih =>
    have inside : start < image.bytes.toList.length := by
      rw [Array.length_toList]
      change start < image.size
      omega
    rw [charactersFrom, nameBytes, List.drop_eq_getElem_cons inside, image.byte_eq_getElem inside]
    by_cases zero : image.bytes.toList[start] = 0
    · rw [List.takeWhile_cons_of_neg (by simp [zero]), zero]
      rfl
    · have nonzero : ¬image.bytes.toList[start].toBitVec = 0#8 := by
        intro same
        exact zero (UInt8.toBitVec_inj.mp same)
      rw [if_neg nonzero, ih (start + 1) (by omega),
        List.takeWhile_cons_of_pos (by simpa using zero)]
      rfl

theorem nameAt_of_le (inside : start ≤ image.size) :
    image.nameAt start = .ok (byteText (image.nameBytes start)) := by
  rw [nameAt, if_pos inside, image.charactersFrom_eq start _ (Nat.add_sub_cancel' inside)]
  rfl

theorem nameAt_of_lt (outside : image.size < start) :
    image.nameAt start = .error (.invalidOffset start) :=
  if_neg (Nat.not_le.mpr outside)

theorem nameAt_eq_ok_iff (name : String) :
    image.nameAt start = .ok name ↔
      start ≤ image.size ∧ name = byteText (image.nameBytes start) := by
  by_cases inside : start ≤ image.size
  · rw [image.nameAt_of_le start inside, Except.ok.injEq]
    exact ⟨fun same => ⟨inside, same.symm⟩, fun found => found.2.symm⟩
  · rw [image.nameAt_of_lt start (Nat.not_le.mp inside)]
    simp [inside]

end Image

end RiscvListing.Elf
