import EventScript.Compile
import EventScript.Json.Reader

namespace EventScript

namespace Json

-- The members of an object with their names; none if a name is no text.
def namedMembers? : List (List JsonUnit × Json) → Option (List (String × Json))
  | [] => some []
  | (name, value) :: rest => do
    let name ← textOf? name
    some ((name, value) :: (← namedMembers? rest))

-- The fields of a record. A field that an object gives twice, or an array that is too long, is
-- refused.
def recordFields? (names : List String) : Json → Option (List (String × Json))
  | object members => do
    let fields := (← namedMembers? members).filter fun field => names.contains field.1
    if (fields.map (·.1)).Nodup then some fields else none
  | array items => if items.length ≤ names.length then some (names.zip items) else none
  | _ => none

-- The value of a field, or a default for a field that is missing.
def fieldOr {α : Type} (fields : List (String × Json)) (name : String) (default : α)
    (read? : Json → Option α) : Option α :=
  match fields.lookup name with
  | some value => read? value
  | none => some default

def field? {α : Type} (fields : List (String × Json)) (name : String) (read? : Json → Option α) :
    Option α :=
  (fields.lookup name).bind read?

def asText? : Json → Option String
  | string units => textOf? units
  | _ => none

def asBool? : Json → Option Bool
  | bool value => some value
  | _ => none

def asList? {α : Type} (read? : Json → Option α) : Json → Option (List α)
  | array items => items.mapM read?
  | _ => none

-- A value that may be `null`.
def asOptional? {α : Type} (read? : Json → Option α) : Json → Option (Option α)
  | null => some none
  | value => (read? value).map some

end Json

def ParameterSpec.ofJson? (json : Json) : Option ParameterSpec := do
  let fields ← json.recordFields? ["name", "type"]
  let name ← Json.field? fields "name" Json.asText?
  let typeName ← Json.field? fields "type" Json.asText?
  some { name, typeName }

namespace CompileOptions

def ofJson? (json : Json) : Option CompileOptions := do
  let fields ← json.recordFields? ["parameters", "imports", "checked", "result_type"]
  let parameters ← Json.fieldOr fields "parameters" [] (Json.asList? ParameterSpec.ofJson?)
  let imports ← Json.fieldOr fields "imports" [] (Json.asList? Json.asText?)
  let checked ← Json.fieldOr fields "checked" false Json.asBool?
  let resultType ← Json.fieldOr fields "result_type" none (Json.asOptional? Json.asText?)
  some { parameters, imports, checked, resultType }

def read? (document : String) : Option CompileOptions := (Json.read? document).bind ofJson?

-- These options, with further ones behind them and above them.
def extend (options further : CompileOptions) : CompileOptions where
  parameters := options.parameters ++ further.parameters
  imports := options.imports ++ further.imports
  checked := options.checked || further.checked
  resultType := further.resultType.or options.resultType

end CompileOptions

-- A text that declares no parameter.
structure ParameterError where
  text : String
deriving DecidableEq, Repr

def ParameterError.message (e : ParameterError) : String := "expected NAME:TYPE, got '" ++ e.text ++ "'"

-- The parameter that `NAME:TYPE` declares; the first colon ends the name.
def ParameterSpec.read (text : String) : Except ParameterError ParameterSpec :=
  match Text.cutFirst? ':' text.toList with
  | none => .error ⟨text⟩
  | some (before, behind) =>
    let name := Text.trimChars before
    let typeName := Text.trimChars behind
    if name.isEmpty ∨ typeName.isEmpty then .error ⟨text⟩
    else .ok ⟨String.ofList name, String.ofList typeName⟩

end EventScript
