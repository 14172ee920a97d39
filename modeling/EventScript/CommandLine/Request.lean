import EventScript.CommandLine.Arguments
import EventScript.Options

namespace EventScript.CommandLine

inductive ReportFormat where
  | text | json
deriving DecidableEq, Repr, Inhabited

-- Checks a script that stands in a file.
structure CheckCommand where
  file : String := ""
  optionsFile : Option String := none
  -- The options on the command line, which extend those of the file.
  options : CompileOptions := {}
  format : ReportFormat := .text
  showDispatch : Bool := false
deriving DecidableEq, Repr, Inhabited

structure ListCommand where
  typeName : String := ""
  imports : List String := []
deriving DecidableEq, Repr, Inhabited

inductive Request where
  | help
  | check (command : CheckCommand)
  | list (command : ListCommand)
deriving DecidableEq, Repr, Inhabited

def pathSetter {σ : Type} (name : String) (apply : String → σ → σ) : Setter σ := fun path command =>
  if path.isEmpty then .error (.invalidValue name path "a path is not empty")
  else .ok (apply path command)

def textSetter {σ : Type} (apply : String → σ → σ) : Setter σ := fun text command =>
  .ok (apply text command)

def addParameter : Setter CheckCommand := fun text command =>
  match ParameterSpec.read text with
  | .ok p => .ok { command with options.parameters := command.options.parameters ++ [p] }
  | .error e => .error (.invalidValue "--param" text e.message)

def setFormat : Setter CheckCommand := fun text command =>
  if text = "text" then .ok { command with format := .text }
  else if text = "json" then .ok { command with format := .json }
  else .error (.invalidValue "--format" text "a format is text or json")

def CheckCommand.arguments : ArgumentSpec CheckCommand where
  name := "FILE"
  apply := pathSetter "<FILE>" fun path c => { c with file := path }
  options :=
    [⟨"options", false, .value (pathSetter "--options" fun path c => { c with optionsFile := some path })⟩,
      ⟨"import", true, .value (textSetter fun path c =>
        { c with options.imports := c.options.imports ++ [path] })⟩,
      ⟨"param", true, .value addParameter⟩,
      ⟨"result-type", false, .value (textSetter fun name c =>
        { c with options.resultType := some name })⟩,
      ⟨"checked", false, .flag fun c => { c with options.checked := true }⟩,
      ⟨"format", false, .value setFormat⟩,
      ⟨"show-dispatch", false, .flag fun c => { c with showDispatch := true }⟩]

def ListCommand.arguments : ArgumentSpec ListCommand where
  name := "TYPE"
  apply := textSetter fun name c => { c with typeName := name }
  options := [⟨"import", true, .value (textSetter fun path c =>
    { c with imports := c.imports ++ [path] })⟩]

namespace Request

def ofReading {σ : Type} (request : σ → Request) : Reading σ → Request
  | .help => .help
  | .done command => request command

def topics : List String := ["check", "extensions", "help"]

-- Help is about all commands or about one.
def readHelp : List String → Except UsageError Request
  | [] => .ok .help
  | topic :: more =>
    if !topics.contains topic then .error (.unknownCommand topic)
    else match more with
      | [] => .ok .help
      | text :: _ => .error (.unknownCommand text)

def read : List String → Except UsageError Request
  | [] => .error .missingCommand
  | "check" :: rest => (CheckCommand.arguments.read { command := {} } rest).map (ofReading check)
  | "extensions" :: rest => (ListCommand.arguments.read { command := {} } rest).map (ofReading list)
  | "help" :: rest => readHelp rest
  | text :: _ =>
    match Word.ofText text with
    | .letters 'h' | .option "help" none => .ok .help
    | .plain name => .error (.unknownCommand name)
    | _ => .error (.unexpectedArgument text)

end Request

end EventScript.CommandLine
