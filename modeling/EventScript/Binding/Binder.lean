import EventScript.Binding.Calls
import EventScript.Binding.Naming
import EventScript.Binding.Operators

namespace EventScript.Binding

open Compiling

variable (scope : BindingScope)

-- What an expression stands for before it is used as a value.
inductive Denotation where
  | value (e : BoundExpr)
  | type (id : TypeId) (span : Span)
  | entity (entity : Entity) (span : Span)
  | methods (group : MethodGroup)
deriving Repr, Inhabited

-- The value of what an expression stands for; types, namespaces and methods are none.
def toValue : Denotation → Compiling BoundExpr
  | .value e => pure e
  | .type id span => do
    fault scope.runtime (.typeAsValue id) span
    return .failed span
  | .entity entity span => do
    fault scope.runtime (.namespaceAsValue entity) span
    return .failed span
  | .methods group => do
    fault scope.runtime (.methodGroupAsValue group.name) group.span
    return .failed group.span

-- The type of an integer literal: the first of the types of its suffix that holds the value, and the
-- widest unsigned type at the latest.
def integerKind (value : Nat) (suffix : IntSuffix) : NumericKind :=
  match suffix with
  | .none =>
    if value < Nat.pow 2 31 then .int32
    else if value < Nat.pow 2 32 then .uint32
    else if value < Nat.pow 2 63 then .int64
    else .uint64
  | .long => if value < Nat.pow 2 63 then .int64 else .uint64
  | .unsigned => if value < Nat.pow 2 32 then .uint32 else .uint64
  | .unsignedLong => .uint64

def realKind : RealSuffix → NumericKind
  | .float => .single
  | .decimal => .decimal
  | .none | .double => .double

def literalType : Literal → TypeId
  | .int value suffix => .numeric (integerKind value suffix)
  | .real _ suffix => .numeric (realKind suffix)
  | .str _ => .string
  | .bool _ => .boolean
  | .null => .null

-- A simple name: a parameter, or else a type or namespace.
def bindName (ident : Ident) : Compiling Denotation := do
  match scope.parameters.lookup ident.name with
  | some type => return .value (.node (.parameter ident.name) type ident.span [])
  | none =>
    let before ← errorCount
    match ← lookupName scope ident 0 with
    | some (.type id) => return .type id ident.span
    | some entity => return .entity entity ident.span
    | none =>
      -- an ambiguous name has been reported as such
      if (← errorCount) = before then fault scope.runtime (.unknownName ident.name) ident.span
      return .value (.failed ident.span)

def missingMember (type : TypeId) (name : Ident) (span : Span) : Compiling Denotation := do
  fault scope.runtime (.unknownMember type name.name) name.span
  return .value (.failed span)

def staticMember (type : TypeId) (name : Ident) (span : Span) : Compiling Denotation := do
  match property? scope.types type name.name true with
  | some found =>
    return .value (.node (.staticProperty found.declaring name.name) found.type span [])
  | none =>
    match ← methodsNamed scope type name.name true with
    | [] => missingMember scope type name span
    | methods => return .methods ⟨name.name, .static, methods, span⟩

-- A member of a value: a property, methods, or extension methods, in this order.
def instanceMember (value : BoundExpr) (name : Ident) (span : Span) (suppressErrors : Bool) :
    Compiling Denotation := do
  if value.isError then return .value (.failed span)
  else if value.type = .object then
    let descriptor ← descriptor (.getMember name.name suppressErrors)
    return .value (.dynamic descriptor [value] span)
  else
    match property? scope.types value.type name.name false with
    | some found =>
      return .value (.node (.property found.declaring name.name) found.type span [value])
    | none =>
      match ← methodsNamed scope value.type name.name false with
      | [] =>
        match ← extensionGroup scope value name.name span with
        | some group => return .methods group
        | none => missingMember scope value.type name span
      | methods => return .methods ⟨name.name, .instanceOf value, methods, span⟩

-- A member of what an expression stands for.
def memberOf (target : Denotation) (name : Ident) (span : Span) (suppressErrors : Bool) :
    Compiling Denotation := do
  match target with
  | .entity entity _ =>
    match scope.runtime.tree.lookupIn? entity name.name 0 with
    | some (.type id) => return .type id span
    | some inner => return .entity inner span
    | none =>
      fault scope.runtime (.unknownNamespaceMember entity name.name) name.span
      return .value (.failed span)
  | .type id _ => staticMember scope id name span
  | .value value => instanceMember scope value name span suppressErrors
  | .methods group =>
    let _ ← toValue scope (.methods group)
    return .value (.failed (group.span.hull span))

-- A call of what an expression stands for; its text names it when it cannot be called.
def callDenoted (callee : Expr) (denoted : Denotation) (arguments : List BoundExpr) (span : Span) :
    Compiling BoundExpr := do
  match denoted with
  | .methods group =>
    if arguments.any (·.isError) then return .failed span
    else callGroup scope group arguments span
  | .value value =>
    if value.isError then return .failed span
    else if value.type = .object then
      return .dynamic (← descriptor (.invoke arguments.length)) (value :: arguments) span
    else
      fault scope.runtime (.notInvocable callee.render) callee.span
      return .failed span
  | other =>
    let _ ← toValue scope other
    return .failed span

-- The name of the method that an indexing calls.
def indexerName : String := "get_Item"

def bindIndex (target : BoundExpr) (arguments : List BoundExpr) (span : Span) :
    Compiling BoundExpr := do
  if target.isError || arguments.any (·.isError) then return .failed span
  else if target.type = .object then
    return .dynamic (← descriptor (.getIndex arguments.length)) (target :: arguments) span
  else
    match ← methodsNamed scope target.type indexerName false with
    | [] =>
      fault scope.runtime (.cannotIndex target.type) span
      return .failed span
    | methods => callGroup scope ⟨indexerName, .instanceOf target, methods, span⟩ arguments span

def bindCast (operand : BoundExpr) (name : TypeName) (span : Span) : Compiling BoundExpr := do
  match ← resolveType scope name with
  | none => return .failed span
  | some target => return (← convert scope operand target .explicitCast).withSpan span

-- An `as`: the result of a try for a value type is always taken as an object.
def bindAsType (operand : BoundExpr) (name : TypeName) (span : Span) : Compiling BoundExpr := do
  match ← resolveType scope name with
  | none => return .failed span
  | some target =>
    if operand.isError then return .failed span
    else
      let key : DispatchKey :=
        if scope.types.isValueType target then .convertToObject target .explicitTry
        else .convert target .explicitTry
      return (← convertBy scope operand (← descriptor key)).withSpan span

mutual

-- Binds an expression to what it stands for.
def denote (e : Expr) : Compiling Denotation :=
  match e with
  | .literal value span => return .value (.node (.literal value) (literalType value) span [])
  | .name ident _ => bindName scope ident
  | .member target name span => do
    let target ← denote target
    memberOf scope target name span false
  | .call callee arguments span => do
    let arguments ← bindAll arguments
    match callee with
    | .member target name calleeSpan =>
      match ← denote target with
      | .value receiver =>
        if receiver.type = .object ∧ ¬receiver.isError then
          let descriptor ← descriptor (.invokeMember name.name arguments.length)
          return .value (.dynamic descriptor (receiver :: arguments) span)
        else
          let denoted ← memberOf scope (.value receiver) name calleeSpan false
          return .value (← callDenoted scope callee denoted arguments span)
      | denotedTarget =>
        let denoted ← memberOf scope denotedTarget name calleeSpan false
        return .value (← callDenoted scope callee denoted arguments span)
    | callee =>
      let denoted ← denote callee
      return .value (← callDenoted scope callee denoted arguments span)
  | .index target arguments span => do
    let target ← toValue scope (← denote target)
    let arguments ← bindAll arguments
    return .value (← bindIndex scope target arguments span)
  | .unary op operand span => do
    let operand ← toValue scope (← denote operand)
    return .value (← bindUnary scope op operand span)
  | .binary op left right span => do
    let left ← toValue scope (← denote left)
    let right ← toValue scope (← denote right)
    return .value (← bindBinary scope op left right span)
  | .cast name operand span => do
    let operand ← toValue scope (← denote operand)
    return .value (← bindCast scope operand name span)
  | .asType operand name span => do
    match operand with
    | .member target member memberSpan =>
      -- reading a member that is missing at run time is no error here
      let target ← denote target
      let operand ← toValue scope (← memberOf scope target member memberSpan true)
      return .value (← bindAsType scope operand name span)
    | operand =>
      let operand ← toValue scope (← denote operand)
      return .value (← bindAsType scope operand name span)
  | .guarded checked operand _ =>
    inScope (·.enterWith .checkedScope checked) (denote operand)

-- Binds expressions as values, from left to right.
def bindAll (es : List Expr) : Compiling (List BoundExpr) :=
  match es with
  | [] => return []
  | e :: rest => do
    let first ← toValue scope (← denote e)
    return first :: (← bindAll rest)

end

-- A call or an `as` whose first operand is no member looks at it like any other construct does.

theorem denote_call {callee : Expr}
    (hm : ∀ target name calleeSpan, callee = .member target name calleeSpan → False)
    (arguments : List Expr) (span : Span) :
    denote scope (.call callee arguments span) = do
      let arguments ← bindAll scope arguments
      let denoted ← denote scope callee
      return .value (← callDenoted scope callee denoted arguments span) := by
  rw [denote]
  cases callee with
  | member target name calleeSpan => exact (hm _ _ _ rfl).elim
  | _ => rfl

theorem denote_asType {operand : Expr}
    (hm : ∀ target member memberSpan, operand = .member target member memberSpan → False)
    (name : TypeName) (span : Span) :
    denote scope (.asType operand name span) = do
      let operand ← toValue scope (← denote scope operand)
      return .value (← bindAsType scope operand name span) := by
  rw [denote]
  exact hm

-- Binds an expression as a value.
def bind (e : Expr) : Compiling BoundExpr := do toValue scope (← denote scope e)

-- Binds an expression and converts it to a type without a cast.
def bindTo (e : Expr) (target : TypeId) : Compiling BoundExpr := do
  convert scope (← bind scope e) target .implicitCast

end EventScript.Binding
