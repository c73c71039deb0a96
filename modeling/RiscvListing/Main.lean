import RiscvListing.CommandLine.Run

namespace RiscvListing.CommandLine

def usage : String :=
  "Lists the code of a RISC-V object file.\n\n" ++
  "Usage: [OPTIONS] INPUT OUTPUT\n\n" ++
  "  -c, --config FILE  settings in JSON\n" ++
  "      --lenient      treat missing .text, .symtab and .strtab sections as empty\n" ++
  "      --no-symtab    list the code only\n" ++
  "      --json-logs    write the log in JSON\n" ++
  "  -h, --help         print this text\n"

/-- A name that is too long has code 36, and its complement where a read reports it. -/
def faultOf (error : IO.Error) : FileFault :=
  match error with
  | .noFileOrDirectory .. => .missing
  | .invalidArgument _ 36 _ => .nameTooLong
  | .invalidArgument _ 4294967260 _ => .nameTooLong
  | .inappropriateType _ 21 _ => .isDirectory
  | .inappropriateType .. => .notDirectory
  | other => .other (toString other)

/-- What stands at a path. A directory is known by the refusal to read it. -/
def findNode (path : String) : IO (Except FileFault Node) := do
  try
    return .ok (.file (← IO.FS.readBinFile path).data)
  catch error =>
    match faultOf error with
    | .isDirectory => return .ok .directory
    | fault => return .error fault

def writeBytes (path : String) (bytes : Bytes) : IO (Except FileFault Unit) := do
  try
    IO.FS.writeBinFile path ⟨bytes⟩
    return .ok ()
  catch error =>
    return .error (faultOf error)

def runOptions (options : Options) : IO UInt32 := do
  let paths := options.config.toList ++ [options.input]
  let nodes ← paths.mapM fun path => do return (path, ← findNode path)
  let find (path : String) : Except FileFault Node := (nodes.lookup path).getD (.error .missing)
  let result : Except RunError Report ←
    match options.list find with
    | .error error => pure (.error error)
    | .ok report =>
      match ← writeBytes options.output (utf8 report.text) with
      | .error fault => pure (.error (.output options.output fault))
      | .ok () => pure (.ok report)
  let threshold := Log.Threshold.ofName (← IO.getEnv "RUST_LOG")
  for entry in visible threshold (options.journal find result.toOption) do
    IO.eprintln (if options.jsonLogs then entry.toText else entry.toLine)
  match result with
  | .error error =>
    IO.eprint error.text
    return 1
  | .ok _ => return 0

end RiscvListing.CommandLine

open RiscvListing.CommandLine in
def main (arguments : List String) : IO UInt32 := do
  match readArguments arguments with
  | .error error =>
    IO.eprintln error.message
    return 2
  | .ok .help =>
    IO.print usage
    return 0
  | .ok (.list options) => runOptions options
