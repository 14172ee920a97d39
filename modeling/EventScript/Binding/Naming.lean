import EventScript.Binding.Compiling
import EventScript.Expr.Printer

namespace EventScript.Binding

open Compiling

variable (scope : BindingScope)

-- What a simple name stands for; an ambiguous name is reported and stands for nothing.
def resolveName (name : String) (span : Span) (arity : Nat) : Compiling (Option Entity) :=
  match scope.names.resolve scope.runtime name arity with
  | .found entity => pure (some entity)
  | .unknown => pure none
  | .ambiguous first second => do
    fault scope.runtime (.ambiguousName name first second) span
    return none

-- What a name at the front of a path stands for. An unknown name may be an alias of modules.
def lookupName (ident : Ident) (arity : Nat) : Compiling (Option Entity) := do
  let before ← errorCount
  match ← resolveName scope ident.name ident.span arity with
  | some entity => return some entity
  | none =>
    if (← errorCount) = before then return scope.names.alias? scope.runtime ident.name
    else return none

-- What a dotted name with a number of type arguments stands for.
def resolvePath (path : DottedName) (arity : Nat) : Compiling (Option Entity) :=
  let tree := scope.runtime.tree
  match path.qualifiers with
  | [] => resolveName scope path.last.name path.last.span arity
  | first :: rest => do
    let start ← lookupName scope first 0
    return do
      let home ← rest.foldlM (fun entity ident => tree.lookupIn? entity ident.name 0) (← start)
      tree.lookupIn? home path.last.name arity

-- The instance for these arguments; what has never been created is reported.
def existingInstance (definition : TypeId) (arguments : List TypeId) (name : TypeName) :
    Compiling (Option TypeId) :=
  match scope.types.findInstance? definition arguments with
  | some id => pure (some id)
  | none => do
    fault scope.runtime (.unavailableType name.render) name.span
    return none

-- The type, or its nullable form if the name asks for it and the type is a value type.
def markedNullable (type : TypeId) (name : TypeName) : Compiling (Option TypeId) :=
  if name.nullable && scope.types.isValueType type then
    existingInstance scope .nullable [type] name
  else pure (some type)

-- The definition that a type name starts with; a name that is no type is reported.
def resolveDefinition (name : TypeName) : Compiling (Option TypeId) := do
  let before ← errorCount
  match (← resolvePath scope name.path name.arguments.length).bind Entity.type? with
  | some definition => return some definition
  | none =>
    if (← errorCount) = before then fault scope.runtime (.unknownType name.render) name.span
    return none

mutual

-- The type that a script writes in a cast or behind `as`.
def resolveType (name : TypeName) : Compiling (Option TypeId) :=
  match name with
  | .mk path arguments nullable span => do
    let name : TypeName := .mk path arguments nullable span
    match ← resolveDefinition scope name with
    | none => return none
    | some definition =>
      match arguments with
      | [] => markedNullable scope definition name
      | first :: rest =>
        match ← resolveType first with
        | none => return none
        | some firstType =>
          match ← resolveTypes rest with
          | none => return none
          | some restTypes =>
            match ← existingInstance scope definition (firstType :: restTypes) name with
            | none => return none
            | some type => markedNullable scope type name

-- The types of several names; none after the first that stands for nothing.
def resolveTypes (names : List TypeName) : Compiling (Option (List TypeId)) :=
  match names with
  | [] => return some []
  | name :: rest => do
    match ← resolveType name with
    | none => return none
    | some type => return (← resolveTypes rest).map (type :: ·)

end

end EventScript.Binding
