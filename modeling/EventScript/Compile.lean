import EventScript.Binding.Binder
import EventScript.Expr.Parser

namespace EventScript

-- A parameter of a script, with its type by name.
structure ParameterSpec where
  name : String
  typeName : String
deriving DecidableEq, Repr, Inhabited

-- What a compilation is asked for besides the source.
structure CompileOptions where
  parameters : List ParameterSpec := []
  imports : List String := []
  checked : Bool := false
  resultType : Option String := none
deriving DecidableEq, Repr, Inhabited

-- The bound script, unless it could not be read, and every message about it.
structure CompileOutput where
  expr : Option BoundExpr
  diagnostics : List Diagnostic
deriving Repr, Inhabited

def CompileOutput.hasErrors (output : CompileOutput) : Bool :=
  output.diagnostics.any Diagnostic.isError

namespace Compile

open Compiling

variable (r : Runtime)

-- Imports a namespace that is given by its path.
def importPath (names : NameScope) (path : String) (span : Span) : Compiling NameScope := do
  match r.tree.find? path with
  | some id => return names.importNamespace id
  | none =>
    fault r (.unknownReference path) span
    return names

-- Declares an alias for a namespace or, if there is none of that path, for a type.
def declareAlias (names : NameScope) (name path : String) (span : Span) :
    Compiling NameScope := do
  match r.tree.find? path with
  | some id => return names.addAlias name (.namespace id)
  | none =>
    match r.findType? path with
    | some type => return names.addAlias name (.type type)
    | none =>
      fault r (.unknownReference path) span
      return names

def applyUsing (names : NameScope) (directive : UsingDirective) : Compiling NameScope :=
  match directive.nickname with
  | some nickname => declareAlias r names nickname.name directive.path.render directive.span
  | none => importPath r names directive.path.render directive.span

-- The imports of the options, then the directives of the script in their order.
def openNames (imports : List String) (usings : List UsingDirective) : Compiling NameScope := do
  let imported ← imports.foldlM (fun names path => importPath r names path .none) .empty
  usings.foldlM (applyUsing r) imported

-- The type of that full name or, through the imports, of that simple name.
def typeNamed? (names : NameScope) (name : String) : Option TypeId :=
  match r.findType? name with
  | some type => some type
  | none =>
    match names.resolve r name 0 with
    | .found entity => entity.type?
    | .ambiguous first _ => some first
    | .unknown => none

-- The type of that name; a name that stands for no type is reported without a place.
def typeNamed (names : NameScope) (name : String) : Compiling (Option TypeId) := do
  match typeNamed? r names name with
  | some type => return some type
  | none =>
    fault r (.unknownReference name) .none
    return none

-- The parameters whose types are known, the last of them first, so that it holds.
def declareParameters (names : NameScope) (specs : List ParameterSpec) :
    Compiling (List (String × TypeId)) :=
  specs.foldlM (fun declared spec => do
    match ← typeNamed r names spec.typeName with
    | some type => return (spec.name, type) :: declared
    | none => return declared) []

def bindScript (options : CompileOptions) (script : Script) : Compiling BoundExpr := do
  let names ← openNames r options.imports script.usings
  let parameters ← declareParameters r names options.parameters
  let scope : BindingScope := ⟨r, names, parameters⟩
  match options.resultType with
  | none => Binding.bind scope script.body
  | some name =>
    match ← typeNamed r names name with
    | some type => Binding.bindTo scope script.body type
    | none => Binding.bind scope script.body

def initialFlags (options : CompileOptions) : ScopeFlags :=
  if options.checked then .checkedScope else .empty

end Compile

-- Compiles a source. The shared caches grow, whatever comes of it.
def compile (r : Runtime) (options : CompileOptions) (source : String) :
    StateM Caches CompileOutput := fun caches =>
  match parseScript source with
  | .error e => (⟨none, [e.toDiagnostic]⟩, caches)
  | .ok script =>
    let (expr, after) := Compile.bindScript r options script
      ⟨caches, Compile.initialFlags options, []⟩
    (⟨some expr, after.diagnostics⟩, after.caches)

end EventScript
