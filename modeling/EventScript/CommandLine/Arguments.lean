namespace EventScript.CommandLine

inductive UsageError where
  | missingCommand
  | unknownCommand (name : String)
  | unexpectedArgument (text : String)
  | missingArgument (name : String)
  | missingValue (option : String)
  | unwantedValue (option : String)
  | repeatedOption (option : String)
  | invalidValue (name text reason : String)
deriving DecidableEq, Repr

def UsageError.message : UsageError → String
  | missingCommand => "a command is required"
  | unknownCommand name => s!"unrecognized command '{name}'"
  | unexpectedArgument text => s!"unexpected argument '{text}'"
  | missingArgument name => s!"the argument <{name}> is required"
  | missingValue option => s!"a value is required for '--{option}'"
  | unwantedValue option => s!"'--{option}' takes no value"
  | repeatedOption option => s!"'--{option}' cannot be used more than once"
  | invalidValue name text reason => s!"invalid value '{text}' for {name}: {reason}"

inductive Word where
  -- Two dashes alone: all further words are plain.
  | terminator
  | option (name : String) (attached : Option String)
  -- Letters behind a single dash.
  | letters (first : Char)
  | plain (text : String)
deriving DecidableEq, Repr

-- An option's name, and the value behind the first equals sign.
def Word.ofOption (cs : List Char) : Word :=
  match cs.dropWhile (· ≠ '=') with
  | [] => option (String.ofList cs) none
  | _ :: value => option (String.ofList (cs.takeWhile (· ≠ '='))) (some (String.ofList value))

def Word.ofText (text : String) : Word :=
  match text.toList with
  | ['-', '-'] => terminator
  | '-' :: '-' :: cs => ofOption cs
  | '-' :: first :: _ => letters first
  | _ => plain text

-- Sets something from a value, unless the value is refused.
abbrev Setter (σ : Type) := String → σ → Except UsageError σ

-- What an option does to the command that is being read.
inductive OptionEffect (σ : Type) where
  | flag (apply : σ → σ)
  | value (apply : Setter σ)

structure OptionSpec (σ : Type) where
  name : String
  repeatable : Bool
  effect : OptionEffect σ

-- The options of a command, and the argument that it needs.
structure ArgumentSpec (σ : Type) where
  options : List (OptionSpec σ)
  name : String
  apply : Setter σ

-- A command that has been read in part.
structure Progress (σ : Type) where
  command : σ
  used : List String := []
  hasArgument : Bool := false

-- What a command line asks for: help, or what was read.
inductive Reading (σ : Type) where
  | help
  | done (command : σ)
deriving DecidableEq, Repr

variable {σ : Type}

-- Notes that an option is used.
def Progress.use (p : Progress σ) (option : OptionSpec σ) : Except UsageError (Progress σ) :=
  if !option.repeatable && p.used.contains option.name then .error (.repeatedOption option.name)
  else .ok { p with used := option.name :: p.used }

def Progress.set (p : Progress σ) (apply : Setter σ) (value : String) :
    Except UsageError (Progress σ) := do
  .ok { p with command := ← apply value p.command }

namespace ArgumentSpec

-- Takes a plain word as the argument; there can be only one.
def take (spec : ArgumentSpec σ) (p : Progress σ) (text : String) :
    Except UsageError (Progress σ) := do
  if p.hasArgument then .error (.unexpectedArgument text)
  .ok { ← p.set spec.apply text with hasArgument := true }

def finish (spec : ArgumentSpec σ) (p : Progress σ) : Except UsageError (Reading σ) :=
  if p.hasArgument then .ok (.done p.command) else .error (.missingArgument spec.name)

-- Reads the words behind a terminator.
def readPlain (spec : ArgumentSpec σ) (p : Progress σ) (texts : List String) :
    Except UsageError (Reading σ) := do
  spec.finish (← texts.foldlM spec.take p)

-- Whether a word can be the value of the option before it.
def isValue (text : String) : Bool :=
  match Word.ofText text with
  | .plain _ => true
  | _ => false

-- Reads the words of a command.
def read (spec : ArgumentSpec σ) (p : Progress σ) : List String → Except UsageError (Reading σ)
  | [] => spec.finish p
  | text :: rest =>
    match Word.ofText text with
    | .terminator => spec.readPlain p rest
    | .plain text => do spec.read (← spec.take p text) rest
    | .letters first => if first = 'h' then .ok .help else .error (.unexpectedArgument text)
    | .option "help" none => .ok .help
    | .option name attached =>
      match spec.options.find? (·.name = name) with
      | none => .error (if name = "help" then .unwantedValue name else .unexpectedArgument text)
      | some option => do
        let p ← p.use option
        match option.effect, attached with
        | .flag apply, none => spec.read { p with command := apply p.command } rest
        | .flag _, some _ => .error (.unwantedValue name)
        | .value apply, some value => spec.read (← p.set apply value) rest
        | .value apply, none =>
          match rest with
          | value :: rest =>
            if isValue value then spec.read (← p.set apply value) rest
            else .error (.missingValue name)
          | [] => .error (.missingValue name)

end ArgumentSpec

end EventScript.CommandLine
