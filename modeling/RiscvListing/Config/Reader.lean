import RiscvListing.Disk.Basic
import RiscvListing.Config.Writer
import RiscvListing.Json.Record

namespace RiscvListing.Config

open Json (RecordField Fault)

def sizeField : RecordField Config where
  key := "max_file_size"
  read config input := do
    let (size, rest) ← Json.readSize input
    return ({ config with maxFileSize := size }, rest)

def strictField : RecordField Config where
  key := "strict"
  read config input := do
    let (flag, rest) ← Json.readFlag input
    return ({ config with strict := flag }, rest)

def symtabField : RecordField Config where
  key := "emit_symtab"
  read config input := do
    let (flag, rest) ← Json.readFlag input
    return ({ config with emitSymtab := flag }, rest)

def fields : List (RecordField Config) :=
  [⟨"io", Json.Record.read [sizeField]⟩,
   ⟨"sections", Json.Record.read [strictField]⟩,
   ⟨"output", Json.Record.read [symtabField]⟩]

/-- The settings given by a text. Those that it does not give are the standard ones. -/
def ofText (text : String) : Except Fault Config :=
  Json.readAll fields .standard text

inductive Error where
  | file (fault : FileFault)
  | text (fault : Fault)
  deriving DecidableEq, Repr

def ofBytes (bytes : Bytes) : Except Error Config :=
  match String.fromUTF8? ⟨bytes⟩ with
  | none => .error (.file .notText)
  | some text => (ofText text).mapError .text

end RiscvListing.Config
