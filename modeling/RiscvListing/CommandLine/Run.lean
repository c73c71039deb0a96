import RiscvListing.Json.Quoted
import RiscvListing.Log.Trace
import RiscvListing.CommandLine.Listing

namespace RiscvListing.CommandLine

structure Entry where
  event : Log.Event
  span : Option Nat

def Options.trace (options : Options) (find : String → Except FileFault Node) : List Entry :=
  match options.settings find, find options.input with
  | .ok config, .ok node =>
    let limit := config.maxFileSize.toNat
    ⟨.loading options.input node.size limit, none⟩ ::
      if limit < node.size then [⟨.tooLarge options.input node.size limit, none⟩]
      else
        match node.mapped with
        | .error _ => []
        | .ok bytes =>
          (Log.Trace.disassembling bytes config.strict).map (⟨·, some bytes.size⟩)
  | _, _ => []

def Options.journal (options : Options) (find : String → Except FileFault Node)
    (written : Option Report) : List Entry :=
  let ending : List Entry :=
    match written with
    | some report => [⟨.written options.input options.output report.lines.length, none⟩]
    | none => []
  ⟨.started options.jsonLogs, none⟩ :: options.trace find ++ ending

/-- The entries that a threshold lets through. The size of the listed file goes with them when the
messages on progress are let through. -/
def visible (threshold : Log.Threshold) (entries : List Entry) : List Entry :=
  (entries.filter fun entry => threshold.allows entry.event.level).map fun entry =>
    if threshold.allows .info then entry else { entry with span := none }

namespace Entry

def detailText : Log.Detail → String
  | .number value => Text.decimal value
  | .text value => Json.quote value

def member (name value : String) : String :=
  Json.quote name ++ ":" ++ value

def object (members : List String) : String :=
  "\x7b" ++ ",".intercalate members ++ "\x7d"

def toText (entry : Entry) : String :=
  let event := entry.event
  let details := event.details.map fun (name, value) => member name (detailText value)
  let span :=
    match entry.span with
    | none => []
    | some size =>
      [member "span" (object [member "bytes" (Text.decimal size),
        member "name" (Json.quote "disassemble")])]
  object ([member "level" (Json.quote event.level.name),
    member "fields" (object (member "message" (Json.quote event.message) :: details)),
    member "target" (Json.quote event.target)] ++ span)

/-- The entry without the marks of a record, for a log that is read as it is. -/
def toLine (entry : Entry) : String :=
  let event := entry.event
  let span :=
    match entry.span with
    | none => ""
    | some size => "disassemble" ++ object ["bytes=" ++ Text.decimal size] ++ ": "
  let details := event.details.map fun (name, value) =>
    match value with
    | .number number => " " ++ name ++ "=" ++ Text.decimal number
    | .text text => " " ++ name ++ "=" ++ text
  Text.alignRight 5 event.level.name ' ' ++ " " ++ span ++ event.target ++ ": " ++
    event.message ++ String.join details

end Entry

structure Outcome where
  exit : Nat
  complaint : String
  /-- The log, if it is asked for as records. -/
  journal : List Entry
  disk : Disk

def run (arguments : List String) (threshold : Log.Threshold) (disk : Disk) : Outcome :=
  match readArguments arguments with
  | .error error => ⟨2, error.message ++ "\n", [], disk⟩
  | .ok .help => ⟨0, "", [], disk⟩
  | .ok (.list options) =>
    let journal (written : Option Report) : List Entry :=
      if options.jsonLogs then visible threshold (options.journal disk.find written) else []
    match options.run disk with
    | .error error => ⟨1, error.text, journal none, disk⟩
    | .ok (report, changed) => ⟨0, "", journal (some report), changed⟩

end RiscvListing.CommandLine
