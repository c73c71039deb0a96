import Mathlib.Algebra.Group.Nat.Defs
import RiscvListing.Proofs.Elf.Reading

namespace RiscvListing.Elf

def halfBytes (half : BitVec 16) : List UInt8 :=
  [⟨half.extractLsb' 0 8⟩, ⟨half.extractLsb' 8 8⟩]

/-- The bytes of a word, lowest first. -/
def wordBytes (word : Word) : List UInt8 :=
  [⟨word.extractLsb' 0 8⟩, ⟨word.extractLsb' 8 8⟩, ⟨word.extractLsb' 16 8⟩,
    ⟨word.extractLsb' 24 8⟩]

def byteText (bytes : List UInt8) : String :=
  String.ofList (bytes.map fun byte => Char.ofNat byte.toNat)

@[simp]
theorem length_halfBytes (half : BitVec 16) : (halfBytes half).length = 2 := rfl

@[simp]
theorem length_wordBytes (word : Word) : (wordBytes word).length = 4 := rfl

namespace Image

def Holds (image : Image) (start : Nat) (part : List UInt8) : Prop :=
  start + part.length ≤ image.size ∧
    ∀ (index : Nat) (inside : index < part.length),
      image.byte (start + index) = part[index].toBitVec

theorem holds_toArray (bytes : List UInt8) : (Image.mk bytes.toArray).Holds 0 bytes := by
  refine ⟨by simp [size], ?_⟩
  intro index inside
  simp [byte, Array.getD, inside]

variable {image : Image} {start : Nat}

theorem Holds.left {first second : List UInt8} (held : image.Holds start (first ++ second)) :
    image.Holds start first := by
  obtain ⟨fits, bytes⟩ := held
  rw [List.length_append] at fits
  refine ⟨by omega, ?_⟩
  intro index inside
  rw [bytes index (by rw [List.length_append]; omega), List.getElem_append_left inside]

theorem Holds.right {first second : List UInt8} (held : image.Holds start (first ++ second)) :
    image.Holds (start + first.length) second := by
  obtain ⟨fits, bytes⟩ := held
  rw [List.length_append] at fits
  refine ⟨by omega, ?_⟩
  intro index inside
  have later := bytes (first.length + index) (by rw [List.length_append]; omega)
  rw [List.getElem_append_right (by omega)] at later
  simpa [Nat.add_assoc] using later

theorem Holds.part {whole part : List UInt8} (held : image.Holds start whole) (before : Nat)
    (fits : before + part.length ≤ whole.length)
    (found : (whole.drop before).take part.length = part) : image.Holds (start + before) part := by
  obtain ⟨inFile, bytes⟩ := held
  refine ⟨by omega, ?_⟩
  intro index inside
  have same : part[index] = whole[before + index] := by
    have taken := List.getElem_of_eq found.symm inside
    rw [List.getElem_take, List.getElem_drop] at taken
    exact taken
  rw [same, ← bytes (before + index) (by omega), Nat.add_assoc]

theorem Holds.flatten {parts : List (List UInt8)} {width : Nat}
    (held : image.Holds start parts.flatten) (sizes : ∀ part ∈ parts, part.length = width)
    (index : Nat) (inside : index < parts.length) :
    image.Holds (start + width * index) parts[index] := by
  induction parts generalizing start index with
  | nil => cases inside
  | cons part parts ih =>
    rw [List.flatten_cons] at held
    cases index with
    | zero => exact held.left
    | succ index =>
      have rest := ih held.right (fun other member => sizes other (List.mem_cons_of_mem _ member))
        index (by simpa using inside)
      rw [sizes part (by simp)] at rest
      rw [Nat.mul_succ, Nat.add_comm (width * index), ← Nat.add_assoc]
      exact rest

theorem Holds.toNat_start {part : List UInt8} (held : image.Holds start part)
    (small : image.size < 2 ^ 32) : (BitVec.ofNat 32 start).toNat = start := by
  have bound := held.1
  rw [BitVec.toNat_ofNat, Nat.mod_eq_of_lt]
  omega

theorem Holds.toNat_length {part : List UInt8} (held : image.Holds start part)
    (small : image.size < 2 ^ 32) : (BitVec.ofNat 32 part.length).toNat = part.length := by
  have bound := held.1
  rw [BitVec.toNat_ofNat, Nat.mod_eq_of_lt]
  omega

theorem checkRange_of_holds {part : List UInt8} (held : image.Holds start part) :
    checkRange start part.length image.size = .ok () :=
  if_pos held.1

theorem byteAt_of_holds {value : UInt8} (held : image.Holds start [value]) :
    image.byteAt start = .ok value.toBitVec := by
  have range : checkRange start 1 image.size = .ok () := checkRange_of_holds held
  have first : image.byte start = value.toBitVec := held.2 0 (by simp)
  rw [byteAt, range, first]
  rfl

theorem halfAt_of_holds {half : BitVec 16} (held : image.Holds start (halfBytes half)) :
    image.halfAt start = .ok half := by
  have range : checkRange start 2 image.size = .ok () := checkRange_of_holds held
  have first : image.byte start = half.extractLsb' 0 8 := held.2 0 (by simp)
  have second : image.byte (start + 1) = half.extractLsb' 8 8 := held.2 1 (by simp)
  rw [halfAt, range, first, second, BitVec.extractLsb'_append_extractLsb']
  rfl

theorem append_wordBytes (word : Word) :
    word.extractLsb' 24 8 ++ word.extractLsb' 16 8 ++ word.extractLsb' 8 8 ++
      word.extractLsb' 0 8 = word := by
  have upper : word.extractLsb' 24 8 ++ word.extractLsb' 16 8 = word.extractLsb' 16 16 :=
    BitVec.extractLsb'_append_extractLsb'_eq_extractLsb' rfl
  have most : word.extractLsb' 16 16 ++ word.extractLsb' 8 8 = word.extractLsb' 8 24 :=
    BitVec.extractLsb'_append_extractLsb'_eq_extractLsb' rfl
  rw [upper, most]
  exact BitVec.extractLsb'_append_extractLsb'

theorem wordAt_of_holds {word : Word} (held : image.Holds start (wordBytes word)) :
    image.wordAt start = .ok word := by
  have range : checkRange start 4 image.size = .ok () := checkRange_of_holds held
  have first : image.byte start = word.extractLsb' 0 8 := held.2 0 (by simp)
  have second : image.byte (start + 1) = word.extractLsb' 8 8 := held.2 1 (by simp)
  have third : image.byte (start + 2) = word.extractLsb' 16 8 := held.2 2 (by simp)
  have fourth : image.byte (start + 3) = word.extractLsb' 24 8 := held.2 3 (by simp)
  rw [wordAt, range, first, second, third, fourth, append_wordBytes]
  rfl

theorem charactersFrom_of_holds {name : List UInt8} {count : Nat}
    (held : image.Holds start (name ++ [0])) (nonzero : 0 ∉ name) (enough : name.length < count) :
    image.charactersFrom start count = name.map fun byte => Char.ofNat byte.toNat := by
  induction name generalizing start count with
  | nil =>
    obtain ⟨count, rfl⟩ : ∃ rest, count = rest + 1 := ⟨count - 1, by simp at enough; omega⟩
    have stop : image.byte start = 0#8 := held.2 0 (by simp)
    rw [charactersFrom, if_pos stop]
    rfl
  | cons head name ih =>
    obtain ⟨count, rfl⟩ : ∃ rest, count = rest + 1 := ⟨count - 1, by omega⟩
    have first : image.byte start = head.toBitVec := held.2 0 (by simp)
    have continues : ¬ image.byte start = 0#8 := by
      intro stop
      rw [first] at stop
      have zero : head = 0 := UInt8.toBitVec_inj.mp stop
      simp [zero] at nonzero
    have whole : image.Holds start ([head] ++ (name ++ [0])) := held
    have rest : image.Holds (start + 1) (name ++ [0]) := whole.right
    have later := ih rest (by intro member; simp [member] at nonzero)
      (by simpa using enough)
    rw [charactersFrom, if_neg continues, later, first]
    rfl

theorem nameAt_of_holds {name : List UInt8} (held : image.Holds start (name ++ [0]))
    (nonzero : 0 ∉ name) : image.nameAt start = .ok (byteText name) := by
  have fits := held.1
  rw [List.length_append, List.length_singleton] at fits
  rw [nameAt, if_pos (by omega), charactersFrom_of_holds held nonzero (by omega)]
  rfl

end Image

end RiscvListing.Elf
