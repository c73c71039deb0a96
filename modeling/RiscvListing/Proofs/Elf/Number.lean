import Mathlib.Algebra.BigOperators.Ring.Finset
import Mathlib.Data.Nat.Digits.Defs
import RiscvListing.Proofs.Guarded.Object

namespace RiscvListing.Elf

/-- The number whose digits in base 256 are the bytes, lowest first. -/
def bytesNumber (bytes : List UInt8) : Nat :=
  Nat.ofDigits 256 (bytes.map UInt8.toNat)

/-- The `count` lowest digits of a number in base 256, lowest first. -/
def numberBytes : Nat → Nat → List UInt8
  | 0, _ => []
  | count + 1, value => UInt8.ofNat value :: numberBytes count (value / 256)

/-- A word into which the bytes are shifted one after the other, the last of them first. -/
def shiftIn (bytes : List UInt8) : Word :=
  bytes.reverse.foldl (fun value byte => value <<< 8 ||| byte.toBitVec.setWidth 32) 0

theorem bytesNumber_cons (byte : UInt8) (bytes : List UInt8) :
    bytesNumber (byte :: bytes) = byte.toNat + 256 * bytesNumber bytes :=
  Nat.ofDigits_cons

theorem bytesNumber_lt (bytes : List UInt8) : bytesNumber bytes < 256 ^ bytes.length := by
  have digits : ∀ digit ∈ bytes.map UInt8.toNat, digit < 256 := by
    intro digit member
    obtain ⟨byte, -, rfl⟩ := List.mem_map.mp member
    exact byte.toNat_lt
  have bound := Nat.ofDigits_lt_base_pow_length (by decide : 1 < 256) digits
  rwa [List.length_map] at bound

theorem length_numberBytes (count value : Nat) : (numberBytes count value).length = count := by
  induction count generalizing value with
  | zero => rfl
  | succ count ih => rw [numberBytes, List.length_cons, ih]

theorem bytesNumber_numberBytes {count value : Nat} (small : value < 256 ^ count) :
    bytesNumber (numberBytes count value) = value := by
  induction count generalizing value with
  | zero =>
    obtain rfl : value = 0 := Nat.lt_one_iff.mp small
    rfl
  | succ count ih =>
    rw [Nat.pow_succ, Nat.mul_comm] at small
    rw [numberBytes, bytesNumber_cons, ih (Nat.div_lt_of_lt_mul small), UInt8.toNat_ofNat']
    exact Nat.mod_add_div value 256

theorem shiftIn_cons (byte : UInt8) (bytes : List UInt8) :
    shiftIn (byte :: bytes) = shiftIn bytes <<< 8 ||| byte.toBitVec.setWidth 32 := by
  rw [shiftIn, List.reverse_cons, List.foldl_append]
  rfl

theorem toNat_shiftIn {bytes : List UInt8} (few : bytes.length ≤ 4) :
    (shiftIn bytes).toNat = bytesNumber bytes := by
  induction bytes with
  | nil => rfl
  | cons byte bytes ih =>
    rw [List.length_cons] at few
    have bound : bytesNumber bytes < 256 ^ 3 :=
      Nat.lt_of_lt_of_le (bytesNumber_lt bytes) (Nat.pow_le_pow_right (by decide) (by omega))
    have low : byte.toNat < 2 ^ 8 := byte.toNat_lt
    have kept : bytesNumber bytes <<< 8 < 2 ^ 32 := by
      rw [Nat.shiftLeft_eq]
      omega
    rw [shiftIn_cons, BitVec.toNat_or, BitVec.toNat_shiftLeft, BitVec.toNat_setWidth,
      ih (by omega), Nat.mod_eq_of_lt kept, UInt8.toNat_toBitVec, Nat.mod_eq_of_lt (by omega),
      ← Nat.shiftLeft_add_eq_or_of_lt low, Nat.shiftLeft_eq, bytesNumber_cons]
    omega

namespace Image

variable {image : Image} {start : Nat}

theorem littleEndian_of_holds {part : List UInt8} (held : image.Holds start part) :
    image.littleEndian start part.length = bytesNumber part := by
  induction part generalizing start with
  | nil => rfl
  | cons byte part ih =>
    have whole : image.Holds start ([byte] ++ part) := held
    have first : image.byte start = byte.toBitVec := held.2 0 (Nat.succ_pos _)
    have rest : image.Holds (start + 1) part := whole.right
    rw [List.length_cons, littleEndian, ih rest, first, bytesNumber_cons]
    rfl

theorem holds_bytes (image : Image) : image.Holds 0 image.bytes.toList :=
  holds_toArray image.bytes.toList

theorem length_slice {count : Nat} (inside : start + count ≤ image.size) :
    (image.bytes.extract start (start + count)).toList.length = count := by
  rw [Array.length_toList, Array.size_extract]
  rw [size] at inside
  omega

theorem holds_slice {count : Nat} (inside : start + count ≤ image.size) :
    image.Holds start (image.bytes.extract start (start + count)).toList := by
  have length := length_slice inside
  have held := image.holds_bytes.part start (by rw [length, Array.length_toList]; exact inside)
    (by
      rw [length, Array.toList_extract, List.extract_eq_take_drop, Nat.add_sub_cancel_left])
  rwa [Nat.zero_add] at held

variable (image start)

theorem littleEndian_eq_sum (count : Nat) :
    image.littleEndian start count =
      ∑ place ∈ Finset.range count, (image.byte (start + place)).toNat * 256 ^ place := by
  induction count generalizing start with
  | zero => rfl
  | succ count ih =>
    rw [littleEndian, ih, Finset.sum_range_succ', Finset.mul_sum, Nat.add_comm]
    congr 1
    · apply Finset.sum_congr rfl
      intro place _
      rw [Nat.add_assoc, Nat.add_comm 1 place, Nat.pow_succ, Nat.mul_left_comm,
        Nat.mul_comm 256 (256 ^ place)]
    · simp

theorem read_eq {α : Type} (count : Nat) (field : α) :
    (checkRange start count image.size >>= fun _ => Except.ok field) =
      if start + count ≤ image.size then .ok field else .error (.truncated start count) := by
  rw [checkRange]
  split <;> rfl

theorem numberAt_eq (count : Nat) :
    image.numberAt start count =
      if count = 1 ∨ count = 2 ∨ count = 4 then
        if start + count ≤ image.size then .ok (image.littleEndian start count)
        else .error (.truncated start count)
      else .error (.invalidOffset start) := by
  rw [numberAt]
  split
  · exact image.read_eq start count _
  · rfl

theorem numberAt_eq_map {width count : Nat} (known : count = 1 ∨ count = 2 ∨ count = 4)
    {field : BitVec width} (value : field.toNat = image.littleEndian start count) :
    image.numberAt start count =
      (checkRange start count image.size >>= fun _ => Except.ok field).map BitVec.toNat := by
  rw [numberAt_eq, if_pos known, read_eq, ← value]
  split <;> rfl

theorem numberAt_eq_shiftIn {count : Nat} (known : count = 1 ∨ count = 2 ∨ count = 4) :
    image.numberAt start count =
      (image.sliceAt start count).map fun bytes => (shiftIn bytes.toList).toNat := by
  have slice : image.sliceAt start count = _ := image.read_eq start count _
  rw [numberAt_eq, if_pos known, slice]
  split
  next inside =>
    have length := length_slice inside
    have digits := littleEndian_of_holds (holds_slice inside)
    rw [length] at digits
    rw [digits, Except.map, toNat_shiftIn (by omega)]
  next => rfl

theorem numberAt_of_holds {image : Image} {start count value : Nat}
    (known : count = 1 ∨ count = 2 ∨ count = 4) (small : value < 256 ^ count)
    (held : image.Holds start (numberBytes count value)) :
    image.numberAt start count = .ok value := by
  have digits := littleEndian_of_holds held
  have inside := held.1
  rw [length_numberBytes, bytesNumber_numberBytes small] at digits
  rw [length_numberBytes] at inside
  rw [numberAt_eq, if_pos known, if_pos inside, digits]

/-- The check of a range is right where its end is too large for a machine word, and a number is
the same whether its bytes are put side by side, shifted in or summed up. -/
theorem numberAt_agrees (image : Image) :
    (∀ start count length : BitVec 64,
      Guarded.Yields (Guarded.checkRange start.toNat count.toNat length.toNat)
        (checkRange start.toNat count.toNat length.toNat) ∧
      checkRange start.toNat count.toNat length.toNat =
        if start.toNat + count.toNat ≤ length.toNat then .ok ()
        else .error (.truncated start.toNat count.toNat)) ∧
    (∀ start,
      image.numberAt start 1 = (image.byteAt start).map BitVec.toNat ∧
      image.numberAt start 2 = (image.halfAt start).map BitVec.toNat ∧
      image.numberAt start 4 = (image.wordAt start).map BitVec.toNat) ∧
    (∀ start count, count = 1 ∨ count = 2 ∨ count = 4 →
      image.numberAt start count =
        (image.sliceAt start count).map (fun bytes => (shiftIn bytes.toList).toNat) ∧
      image.numberAt start count =
        if start + count ≤ image.size then
          .ok (∑ place ∈ Finset.range count, (image.byte (start + place)).toNat * 256 ^ place)
        else .error (.truncated start count)) ∧
    (∀ start count, ¬(count = 1 ∨ count = 2 ∨ count = 4) →
      image.numberAt start count = .error (.invalidOffset start)) ∧
    ∀ (front back : List UInt8) (count value : Nat), count = 1 ∨ count = 2 ∨ count = 4 →
      value < 256 ^ count →
      numberAt ⟨(front ++ (numberBytes count value ++ back)).toArray⟩ front.length count =
        .ok value := by
  refine ⟨?_, ?_, ?_, ?_, ?_⟩
  · intro start count length
    exact ⟨Guarded.yields_checkRange length.isLt _ _, rfl⟩
  · intro start
    exact ⟨image.numberAt_eq_map start (by decide) (image.toNat_byte start),
      image.numberAt_eq_map start (by decide) (image.toNat_half start),
      image.numberAt_eq_map start (by decide) (image.toNat_word start)⟩
  · intro start count known
    refine ⟨image.numberAt_eq_shiftIn start known, ?_⟩
    rw [numberAt_eq, if_pos known, littleEndian_eq_sum]
  · intro start count unknown
    rw [numberAt_eq, if_neg unknown]
  · intro front back count value known small
    have whole := holds_toArray (front ++ (numberBytes count value ++ back))
    have held := whole.right.left
    rw [Nat.zero_add] at held
    exact numberAt_of_holds known small held

def countingFile : Image :=
  ⟨#[0x7f, 0x45, 0x4c, 0x46, 0x12, 0x34, 0x56, 0x78]⟩

theorem countingFile_agrees :
    Guarded.Yields (Guarded.checkRange (2 ^ 64 - 1) 2 8)
      (.error (.truncated (2 ^ 64 - 1) 2)) ∧
    countingFile.numberAt 4 4 = .ok 0x78563412 ∧
    countingFile.numberAt 5 4 = .error (.truncated 5 4) ∧
    countingFile.numberAt 0 3 = .error (.invalidOffset 0) ∧
    numberAt ⟨(magic ++ (numberBytes 4 0xdeadbeef ++ [0])).toArray⟩ 4 4 = .ok 0xdeadbeef := by
  obtain ⟨range, -, sums, others, back⟩ := countingFile.numberAt_agrees
  exact ⟨(range (.allOnes 64) 2 8).1, (sums 4 4 (by decide)).2, (sums 5 4 (by decide)).2,
    others 0 3 (by decide), back magic [0] 4 0xdeadbeef (by decide) (by decide)⟩

end Image

end RiscvListing.Elf
