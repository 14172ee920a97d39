import EventScript.CommandLine.Request
import EventScript.Diagnostic.Heading
import EventScript.ExtensionListing
import EventScript.FileTree
import EventScript.Host.Standard
import EventScript.Input
import EventScript.Report

namespace EventScript.CommandLine

-- What a command prints, and the code that it ends with.
structure Outcome where
  exitCode : Nat
  stdout : String := ""
  stderr : String := ""
deriving DecidableEq, Repr, Inhabited

def unlines (lines : List String) : String := String.join (lines.map (· ++ "\n"))

namespace Outcome

def succeeded : Nat := 0

def rejected : Nat := 1

def failed : Nat := 2

def ofInputError (e : InputError) : Outcome := ⟨failed, "", unlines ["Error: " ++ e.message]⟩

end Outcome

def usage : List String :=
  ["usage: quill check FILE [--options FILE] [--import NAMESPACE]... [--param NAME:TYPE]...",
    "                        [--result-type TYPE] [--checked] [--format text|json] [--show-dispatch]",
    "       quill extensions TYPE [--import NAMESPACE]...",
    "       quill help [COMMAND]"]

def Outcome.ofUsageError (e : UsageError) : Outcome :=
  ⟨failed, "", unlines (("error: " ++ e.message) :: usage)⟩

-- The lines that tell about a diagnostic: its heading and its place.
def diagnosticLines (path source : String) (d : Diagnostic) : List String :=
  d.heading :: match d.place? source with
    | some place => [s!"  at {path}:{place.line}:{place.column}"]
    | none => []

-- What the check of a source comes to.
def reportOutcome (t : TypeTable) (command : CheckCommand) (source : String)
    (report : CheckReport) : Outcome where
  exitCode := if report.isSuccess then Outcome.succeeded else Outcome.rejected
  stdout := match command.format with
    | .json => unlines [(report.toJson t command.showDispatch).render]
    | .text => unlines (report.lines t command.showDispatch)
  stderr := match command.format with
    | .json => ""
    | .text => unlines (report.output.diagnostics.flatMap (diagnosticLines command.file source))

-- Checks a source under options.
def checkSource (r : Runtime) (command : CheckCommand) (options : CompileOptions)
    (source : String) : Outcome :=
  let (output, _) := compile r options source Caches.empty
  reportOutcome r.types command source ⟨command.file, output⟩

def listExtensions (r : Runtime) (command : ListCommand) : Outcome :=
  match r.findType? command.typeName with
  | none => .ofInputError (.unknownType command.typeName)
  | some type =>
    { exitCode := Outcome.succeeded
      stdout := unlines ((r.listedExtensions type command.imports).map r.types.signature) }

variable {m : Type → Type} [Monad m]

-- Reads the bytes of the file with a path.
abbrev FileReader (m : Type → Type) := String → m (Except ReadError ByteArray)

def readText (readFile : FileReader m) (path : String) : m (Except InputError String) := do
  return match (← readFile path) >>= ReadError.decode with
    | .ok text => .ok text
    | .error e => .error (.unreadable path e)

-- The options in a file; without a file there are none.
def loadOptions (readFile : FileReader m) : Option String → m (Except InputError CompileOptions)
  | none => pure (.ok {})
  | some path => do
    match ← readText readFile path with
    | .error e => return .error e
    | .ok document =>
      match CompileOptions.read? document with
      | some options => return .ok options
      | none => return .error (.invalidOptions path)

-- Checks the script in a file. The options are read before the script.
def checkFile (readFile : FileReader m) (r : Runtime) (command : CheckCommand) : m Outcome := do
  match ← loadOptions readFile command.optionsFile with
  | .error e => return .ofInputError e
  | .ok options =>
    match ← readText readFile command.file with
    | .error e => return .ofInputError e
    | .ok source => return checkSource r command (options.extend command.options) source

-- Runs what a command line asks for.
def run (readFile : FileReader m) (arguments : List String) : m Outcome :=
  match Request.read arguments with
  | .error e => pure (.ofUsageError e)
  | .ok .help => pure { exitCode := Outcome.succeeded, stdout := unlines usage }
  | .ok request =>
    match Standard.host?, request with
    | .error e, _ =>
      pure ⟨Outcome.failed, "", unlines ["Error building host: " ++ e.message]⟩
    | .ok r, .check command => checkFile readFile r command
    | .ok r, .list command => pure (listExtensions r command)
    | .ok _, .help => pure { exitCode := Outcome.succeeded, stdout := unlines usage }

-- Runs a command line on files held in memory.
def runIn (t : FileTree) (arguments : List String) : Outcome :=
  let readFile : FileReader Id := t.read
  run readFile arguments

end EventScript.CommandLine
