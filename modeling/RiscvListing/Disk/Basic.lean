import RiscvListing.Basic

namespace RiscvListing

inductive FileFault where
  | missing
  | noDevice
  | notDirectory
  | isDirectory
  | nameTooLong
  | notText
  | other (reason : String)
  deriving DecidableEq, Repr

def FileFault.message : FileFault → String
  | missing => "No such file or directory (os error 2)"
  | noDevice => "No such device (os error 19)"
  | notDirectory => "Not a directory (os error 20)"
  | isDirectory => "Is a directory (os error 21)"
  | nameTooLong => "File name too long (os error 36)"
  | notText => "stream did not contain valid UTF-8"
  | other reason => reason

inductive Node where
  | file (bytes : Bytes)
  | directory
  deriving DecidableEq

namespace Node

/-- The size that the system tells. A directory takes up a block. -/
def size : Node → Nat
  | file bytes => bytes.size
  | directory => 4096

/-- The bytes that are read one after another. A directory cannot be read like that. -/
def read : Node → Except FileFault Bytes
  | file bytes => .ok bytes
  | directory => .error .isDirectory

/-- The bytes that are mapped into memory. A directory cannot be mapped. -/
def mapped : Node → Except FileFault Bytes
  | file bytes => .ok bytes
  | directory => .error .noDevice

end Node

inductive InputError where
  | tooLarge (size limit : Nat)
  | file (fault : FileFault)
  deriving DecidableEq, Repr

def InputError.message : InputError → String
  | tooLarge size limit =>
    "File size of " ++ Text.decimal size ++ " bytes exceeds the maximum allowed size of " ++
      Text.decimal limit ++ " bytes."
  | file fault => "An underlying I/O error occurred: " ++ fault.message

/-- The bytes of an input file that was looked for. It must have at most `limit` bytes. -/
def Input.load (limit : UInt64) (found : Except FileFault Node) : Except InputError Bytes :=
  match found with
  | .error fault => .error (.file fault)
  | .ok node =>
    if limit.toNat < node.size then .error (.tooLarge node.size limit.toNat)
    else node.mapped.mapError .file

abbrev Place := List String

/-- Files and directories by the places at which they stand. Every one of them may be read and
written, none is a link to another, and a directory is as large as `Node.size` says. -/
structure Disk where
  node : Place → Option Node
  home : Place

namespace Disk

def write (disk : Disk) (place : Place) (bytes : Bytes) : Disk :=
  { disk with node := fun other => if other = place then some (.file bytes) else disk.node other }

def ofFiles (home : Place) (files : List (Place × Bytes)) : Disk where
  home := home
  node place :=
    match files.find? fun file => home ++ file.1 = place with
    | some file => some (.file file.2)
    | none =>
      if place.isPrefixOf home ∨ files.any fun file => place.isPrefixOf (home ++ file.1) then
        some .directory
      else none

@[simp]
theorem node_write (disk : Disk) (place other : Place) (bytes : Bytes) :
    (disk.write place bytes).node other =
      if other = place then some (.file bytes) else disk.node other :=
  rfl

end Disk

end RiscvListing
