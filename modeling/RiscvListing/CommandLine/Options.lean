namespace RiscvListing.CommandLine

structure Options where
  input : String
  output : String
  config : Option String
  lenient : Bool
  noSymtab : Bool
  jsonLogs : Bool
  deriving DecidableEq, Repr

inductive UsageError where
  | unknownOption (argument : String)
  | unexpectedValue (argument : String)
  | missingValue
  | repeated (argument : String)
  | emptyPath
  | extraPath (argument : String)
  | missingPath
  deriving DecidableEq, Repr

def UsageError.message : UsageError → String
  | unknownOption argument => "unknown option " ++ argument
  | unexpectedValue argument => "no value is expected in " ++ argument
  | missingValue => "the configuration file is not named"
  | repeated argument => argument ++ " is given twice"
  | emptyPath => "a path is empty"
  | extraPath argument => "there is no use for " ++ argument
  | missingPath => "an input and an output file are needed"

inductive Command where
  | help
  | list (options : Options)
  deriving DecidableEq, Repr

inductive Flag where
  | lenient | noSymtab | jsonLogs
  deriving DecidableEq, Repr

inductive Item where
  | path
  | onlyPaths
  | help
  | flag (flag : Flag)
  | config (path : String)
  | configNext
  deriving DecidableEq, Repr

namespace Item

def ofName? (name : List Char) : Option Item :=
  match String.ofList name with
  | "help" => some help
  | "lenient" => some (flag .lenient)
  | "no-symtab" => some (flag .noSymtab)
  | "json-logs" => some (flag .jsonLogs)
  | "config" => some configNext
  | _ => none

/-- An argument, which is a path unless it starts with a dash and has more to it. A value may be
attached to the name of an option. -/
def ofArgument (argument : String) : Except UsageError Item :=
  match argument.toList with
  | ['-', '-'] => .ok onlyPaths
  | '-' :: '-' :: text =>
    match ofName? (text.takeWhile (· ≠ '=')), text.dropWhile (· ≠ '=') with
    | none, _ => .error (.unknownOption argument)
    | some item, [] => .ok item
    | some configNext, _ :: value => .ok (config (String.ofList value))
    | some _, _ :: _ => .error (.unexpectedValue argument)
  | '-' :: 'h' :: _ => .ok help
  | ['-', 'c'] => .ok configNext
  | '-' :: 'c' :: '=' :: value => .ok (config (String.ofList value))
  | '-' :: 'c' :: value => .ok (config (String.ofList value))
  | '-' :: _ :: _ => .error (.unknownOption argument)
  | _ => .ok path

end Item

structure Draft where
  paths : List String
  config : Option String
  flags : List Flag
  deriving DecidableEq, Repr

namespace Draft

def empty : Draft :=
  ⟨[], none, []⟩

def addPath (draft : Draft) (path : String) : Except UsageError Draft :=
  if path = "" then .error .emptyPath
  else if 2 ≤ draft.paths.length then .error (.extraPath path)
  else .ok { draft with paths := draft.paths ++ [path] }

def addConfig (draft : Draft) (path : String) : Except UsageError Draft :=
  if path = "" then .error .emptyPath
  else if draft.config.isSome then .error (.repeated "--config")
  else .ok { draft with config := some path }

def addFlag (draft : Draft) (flag : Flag) (argument : String) : Except UsageError Draft :=
  if flag ∈ draft.flags then .error (.repeated argument)
  else .ok { draft with flags := flag :: draft.flags }

def finish (draft : Draft) : Except UsageError Command :=
  match draft.paths with
  | [input, output] =>
    .ok (.list ⟨input, output, draft.config, .lenient ∈ draft.flags, .noSymtab ∈ draft.flags,
      .jsonLogs ∈ draft.flags⟩)
  | _ => .error .missingPath

/-- Reads arguments from left to right. The first error and a request for help end the reading. -/
def read (draft : Draft) : List String → Except UsageError Command
  | [] => draft.finish
  | argument :: rest => do
    match ← Item.ofArgument argument with
    | .path => (← draft.addPath argument).read rest
    | .onlyPaths => (← rest.foldlM addPath draft).finish
    | .help => return .help
    | .flag flag => (← draft.addFlag flag argument).read rest
    | .config path => (← draft.addConfig path).read rest
    | .configNext =>
      match rest with
      | [] => throw .missingValue
      | value :: rest =>
        if (← Item.ofArgument value) = .path then (← draft.addConfig value).read rest
        else throw .missingValue

end Draft

def readArguments (arguments : List String) : Except UsageError Command :=
  Draft.empty.read arguments

end RiscvListing.CommandLine
