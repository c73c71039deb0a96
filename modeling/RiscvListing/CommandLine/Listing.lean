import RiscvListing.Disk.Path
import RiscvListing.Failure
import RiscvListing.Report.Basic
import RiscvListing.CommandLine.Options

namespace RiscvListing.CommandLine

inductive RunError where
  | config (path : String) (error : Config.Error)
  | input (path : String) (error : InputError)
  | object (path : String) (error : Elf.Error)
  | output (path : String) (fault : FileFault)
  deriving DecidableEq, Repr

namespace RunError

def context : RunError → String
  | config path _ => "Failed to load config " ++ path
  | input path _ => "Failed to read " ++ path
  | object path _ => "Failed to disassemble " ++ path
  | output path _ => "Failed to create " ++ path

def causes : RunError → List String
  | config _ (.file fault) => [(Failure.config (.file fault)).message, fault.message]
  | config _ (.text fault) => [(Failure.config (.text fault)).message, fault.message]
  | input _ (.tooLarge size limit) => [(InputError.tooLarge size limit).message]
  | input _ (.file fault) => [(InputError.file fault).message, fault.message]
  | object _ error => [(Failure.object error).message, error.message]
  | output _ fault => [fault.message]

/-- A cause at its place in a list of causes. Several causes are numbered. -/
def causeLine (several : Bool) (number : Nat) (cause : String) : String :=
  (if several then Text.alignRight 5 (Text.decimal number) ' ' ++ ": " else "    ") ++ cause ++ "\n"

def text (error : RunError) : String :=
  let several := 1 < error.causes.length
  "Error: " ++ error.context ++ "\n\nCaused by:\n" ++
    String.join (error.causes.zipIdx.map fun (cause, number) => causeLine several number cause)

end RunError

namespace Options

/-- The settings of a run, where `find` gives what stands at a path. The options overrule the
configuration file. -/
def settings (options : Options) (find : String → Except FileFault Node) :
    Except RunError Config := do
  let config ←
    match options.config with
    | none => pure Config.standard
    | some path =>
      match find path >>= Node.read with
      | .error fault => throw (.config path (.file fault))
      | .ok bytes => (Config.ofBytes bytes).mapError (.config path)
  return { config with
    strict := config.strict && !options.lenient
    emitSymtab := config.emitSymtab && !options.noSymtab }

def load (options : Options) (config : Config) (find : String → Except FileFault Node) :
    Except RunError Bytes :=
  (Input.load config.maxFileSize (find options.input)).mapError (.input options.input)

def list (options : Options) (find : String → Except FileFault Node) :
    Except RunError Report := do
  let config ← options.settings find
  let bytes ← options.load config find
  (disassemble bytes config).mapError (.object options.input)

def run (options : Options) (disk : Disk) : Except RunError (Report × Disk) := do
  let report ← options.list disk.find
  let place ← (disk.writable options.output).mapError (.output options.output)
  return (report, disk.write place (utf8 report.text))

end Options

end RiscvListing.CommandLine
