import RiscvListing.Elf.Error

namespace RiscvListing.Elf

structure Image where
  bytes : Bytes
  deriving DecidableEq

def checkRange (start count length : Nat) : Except Error Unit :=
  if start + count ≤ length then .ok () else .error (.truncated start count)

namespace Image

def magic : List UInt8 :=
  [0x7f, 0x45, 0x4c, 0x46]

def ofBytes (bytes : Bytes) : Except Error Image :=
  if (bytes.extract 0 4).toList = magic then .ok ⟨bytes⟩ else .error .invalidMagic

def size (image : Image) : Nat :=
  image.bytes.size

/-- The byte at a position, zero behind the end of the file. What is read is checked to lie inside
the file first. -/
def byte (image : Image) (position : Nat) : BitVec 8 :=
  (image.bytes.getD position 0).toBitVec

def byteAt (image : Image) (start : Nat) : Except Error (BitVec 8) := do
  checkRange start 1 image.size
  return image.byte start

def halfAt (image : Image) (start : Nat) : Except Error (BitVec 16) := do
  checkRange start 2 image.size
  return image.byte (start + 1) ++ image.byte start

def wordAt (image : Image) (start : Nat) : Except Error Word := do
  checkRange start 4 image.size
  return image.byte (start + 3) ++ image.byte (start + 2) ++ image.byte (start + 1) ++
    image.byte start

/-- The number whose `count` digits in base 256 stand from `start` on, lowest digit first. -/
def littleEndian (image : Image) (start : Nat) : Nat → Nat
  | 0 => 0
  | count + 1 => (image.byte start).toNat + 256 * image.littleEndian (start + 1) count

/-- An unsigned number of one, two or four bytes. There are no others in an object. -/
def numberAt (image : Image) (start count : Nat) : Except Error Nat :=
  if count = 1 ∨ count = 2 ∨ count = 4 then do
    checkRange start count image.size
    return image.littleEndian start count
  else .error (.invalidOffset start)

def charactersFrom (image : Image) (start : Nat) : Nat → List Char
  | 0 => []
  | count + 1 =>
    if image.byte start = 0#8 then []
    else Char.ofNat (image.byte start).toNat :: image.charactersFrom (start + 1) count

/-- The name that starts at a position. It ends before a zero byte or at the end of the file. -/
def nameAt (image : Image) (start : Nat) : Except Error String :=
  if start ≤ image.size then
    .ok (String.ofList (image.charactersFrom start (image.size - start)))
  else .error (.invalidOffset start)

def sliceAt (image : Image) (start count : Nat) : Except Error Bytes := do
  checkRange start count image.size
  return image.bytes.extract start (start + count)

end Image

end RiscvListing.Elf
