import RiscvListing.Disk.Basic

namespace RiscvListing

namespace Path

def maxName : Nat :=
  255

def maxLength : Nat :=
  4095

def split : List Char → List (List Char)
  | [] => [[]]
  | c :: rest =>
    match c, split rest with
    | '/', others => [] :: others
    | c, first :: others => (c :: first) :: others
    | c, [] => [[c]]

/-- The names that a path is made of. Two slashes next to each other, or one at an end, have an
empty name. -/
def names (path : String) : List String :=
  (split path.toList).map String.ofList

end Path

namespace Disk

def start (disk : Disk) (path : String) : Place :=
  if path.toList.head? = some '/' then [] else disk.home

def checkDirectory (disk : Disk) (place : Place) : Except FileFault Unit :=
  match disk.node place with
  | none => .error .missing
  | some (.file _) => .error .notDirectory
  | some .directory => .ok ()

def checkName (name : String) : Except FileFault Unit :=
  if name.utf8ByteSize ≤ Path.maxName then .ok () else .error .nameTooLong

def checkPath (path : String) : Except FileFault Unit :=
  if path = "" then .error .missing
  else if path.utf8ByteSize ≤ Path.maxLength then .ok ()
  else .error .nameTooLong

def step (disk : Disk) (place : Place) (name : String) : Except FileFault Place := do
  disk.checkDirectory place
  if name = "" ∨ name = "." then return place
  else if name = ".." then return place.dropLast
  else
    checkName name
    return place ++ [name]

def find (disk : Disk) (path : String) : Except FileFault Node := do
  checkPath path
  let place ← (Path.names path).foldlM disk.step (disk.start path)
  match disk.node place with
  | none => throw .missing
  | some node => return node

def read (disk : Disk) (path : String) : Except FileFault Bytes := do
  (← disk.find path).read

/-- The place at which a file of the path can be written. A path that ends in a slash or a dot
stands for a directory, whether there is one or not. -/
def writable (disk : Disk) (path : String) : Except FileFault Place := do
  checkPath path
  let names := (Path.names path).filter (· ≠ "")
  let parent ← names.dropLast.foldlM disk.step (disk.start path)
  disk.checkDirectory parent
  match names.getLast? with
  | none => throw .isDirectory
  | some name =>
    if name = "." ∨ name = ".." ∨ path.toList.getLast? = some '/' then throw .isDirectory
    else
      checkName name
      match disk.node (parent ++ [name]) with
      | some .directory => throw .isDirectory
      | _ => return parent ++ [name]

end Disk

end RiscvListing
