import EventScript.Binding.Binder

namespace EventScript

-- A compilation without flags: the shared caches and the messages so far.
structure Record where
  caches : Caches
  diagnostics : List Diagnostic
deriving DecidableEq, Repr, Inhabited

abbrev Recording := StateM Record

-- A step that settles things in the same way under all flags.
def Recording.unflagged {α : Type} (m : Compiling α) : Recording α := fun s =>
  let (result, after) := m ⟨s.caches, .empty, s.diagnostics⟩
  (result, ⟨after.caches, after.diagnostics⟩)

namespace Binding.Lexical

open Compiling Recording

variable (scope : BindingScope) (checked : Bool)

-- The binder once more, with the place of an expression told by what encloses it. Each of the nodes
-- that are checked or not is made here; names, members and types are settled as ever.

def applyConversion (e : BoundExpr) (conversion : Conversion) (descriptor : Descriptor) :
    Recording BoundExpr := do
  if conversion.plan = .identity ∧ conversion.resultType = e.type then return e
  else if conversion.isError then
    unflagged (fault scope.runtime
      (.cannotConvert conversion.mode.isExplicit conversion.source conversion.target) e.span)
    return .failed e.span
  else return .node (.convert conversion descriptor checked) conversion.resultType e.span [e]

def convertBy (e : BoundExpr) (descriptor : Descriptor) : Recording BoundExpr := do
  match ← unflagged (search (descriptor.conversion? scope.types e.type)) with
  | some conversion => applyConversion scope checked e conversion descriptor
  | none => return e

def convert (e : BoundExpr) (target : TypeId) (mode : ConversionMode) : Recording BoundExpr := do
  if e.isError then return e
  else convertBy scope checked e (← unflagged (descriptor (.convert target mode)))

def bindUnary (op : UnaryOperator) (operand : BoundExpr) (span : Span) : Recording BoundExpr := do
  if operand.isError then return .failed span
  else
    let descriptor ← unflagged (descriptor (.unary op))
    if operand.type = .object then
      return .node (.unary op descriptor checked) .object span [operand]
    else
      match ← unflagged (unaryType scope op operand.type) with
      | some type =>
        let converted ← convert scope checked operand type .implicitCast
        return .node (.unary op descriptor checked) type span [converted]
      | none =>
        unflagged (fault scope.runtime (.unaryNotApplicable op operand.type) span)
        return .failed span

def bindBinary (op : BinaryOperator) (left right : BoundExpr) (span : Span) :
    Recording BoundExpr := do
  if left.isError || right.isError then return .failed span
  else
    match ← unflagged (binarySignature scope op left.type right.type) with
    | some signature =>
      let left ← convert scope checked left signature.left .implicitCast
      let right ← convert scope checked right signature.right .implicitCast
      let descriptor ← unflagged (descriptor (.binary op))
      return .node (.binary op descriptor checked) signature.result span [left, right]
    | none =>
      unflagged (fault scope.runtime (.operatorNotApplicable op left.type right.type) span)
      return .failed span

-- A choice among methods is no trial here, as nothing is reported by it.
def selectOverload (group : MethodGroup) (arguments : List TypeId) : Recording Overload :=
  unflagged (search (chooseAt scope group arguments [.none, .one]))

def convertArguments : List TypeId → List BoundExpr → Recording (List BoundExpr)
  | parameter :: parameters, argument :: arguments => do
    let first ←
      if scope.types.mentionsParameter parameter then pure argument
      else convert scope checked argument parameter .implicitCast
    return first :: (← convertArguments parameters arguments)
  | _, _ => pure []

def buildCall (group : MethodGroup) (method : MethodId) (given : List BoundExpr) (span : Span) :
    Recording BoundExpr := do
  let receiver := group.receiverType?
  let converted ← convertArguments scope checked (parameterTypes scope.types method receiver)
    (group.arguments given)
  let result := returnType scope.types method receiver
  if (scope.types.method method).isExtension then
    return .node (.extensionCall method) result span converted
  else
    match group.target with
    | .instanceOf receiver => return .node (.call method) result span (receiver :: converted)
    | _ => return .node (.staticCall method) result span converted

def callGroupOr (group : MethodGroup) (given : List BoundExpr) (span : Span)
    (otherwise : Recording BoundExpr) : Recording BoundExpr := do
  match ← selectOverload scope group ((group.arguments given).map (·.type)) with
  | .found method => buildCall scope checked group method given span
  | .ambiguous first second =>
    unflagged (fault scope.runtime (.ambiguousCall first second) group.span)
    return .failed span
  | .noMatch => otherwise

def callGroup (group : MethodGroup) (given : List BoundExpr) (span : Span) :
    Recording BoundExpr :=
  callGroupOr scope checked group given span do
    match group.target with
    | .instanceOf receiver =>
      match ← unflagged (extensionGroup scope receiver group.name group.span) with
      | some extensions =>
        callGroupOr scope checked extensions given span
          (unflagged (refuseCall scope extensions given span))
      | none => unflagged (refuseCall scope group given span)
    | _ => unflagged (refuseCall scope group given span)

def callDenoted (callee : Expr) (denoted : Denotation) (arguments : List BoundExpr) (span : Span) :
    Recording BoundExpr := do
  match denoted with
  | .methods group =>
    if arguments.any (·.isError) then return .failed span
    else callGroup scope checked group arguments span
  | .value value =>
    if value.isError then return .failed span
    else if value.type = .object then
      return .dynamic (← unflagged (descriptor (.invoke arguments.length))) (value :: arguments) span
    else
      unflagged (fault scope.runtime (.notInvocable callee.render) callee.span)
      return .failed span
  | other =>
    let _ ← unflagged (toValue scope other)
    return .failed span

def bindIndex (target : BoundExpr) (arguments : List BoundExpr) (span : Span) :
    Recording BoundExpr := do
  if target.isError || arguments.any (·.isError) then return .failed span
  else if target.type = .object then
    return .dynamic (← unflagged (descriptor (.getIndex arguments.length))) (target :: arguments) span
  else
    match ← unflagged (methodsNamed scope target.type indexerName false) with
    | [] =>
      unflagged (fault scope.runtime (.cannotIndex target.type) span)
      return .failed span
    | methods => callGroup scope checked ⟨indexerName, .instanceOf target, methods, span⟩ arguments span

def bindCast (operand : BoundExpr) (name : TypeName) (span : Span) : Recording BoundExpr := do
  match ← unflagged (resolveType scope name) with
  | none => return .failed span
  | some target => return (← convert scope checked operand target .explicitCast).withSpan span

def bindAsType (operand : BoundExpr) (name : TypeName) (span : Span) : Recording BoundExpr := do
  match ← unflagged (resolveType scope name) with
  | none => return .failed span
  | some target =>
    if operand.isError then return .failed span
    else
      let key : DispatchKey :=
        if scope.types.isValueType target then .convertToObject target .explicitTry
        else .convert target .explicitTry
      return (← convertBy scope checked operand (← unflagged (descriptor key))).withSpan span

mutual

-- What an expression stands for where arithmetic is checked or not. Only `checked` and `unchecked`
-- tell their operand something else than they have been told.
def denote (checked : Bool) (e : Expr) : Recording Denotation :=
  match e with
  | .literal value span => return .value (.node (.literal value) (literalType value) span [])
  | .name ident _ => unflagged (bindName scope ident)
  | .member target name span => do
    let target ← denote checked target
    unflagged (memberOf scope target name span false)
  | .call callee arguments span => do
    let arguments ← bindAll checked arguments
    match callee with
    | .member target name calleeSpan =>
      match ← denote checked target with
      | .value receiver =>
        if receiver.type = .object ∧ ¬receiver.isError then
          let descriptor ← unflagged (descriptor (.invokeMember name.name arguments.length))
          return .value (.dynamic descriptor (receiver :: arguments) span)
        else
          let denoted ← unflagged (memberOf scope (.value receiver) name calleeSpan false)
          return .value (← callDenoted scope checked callee denoted arguments span)
      | denotedTarget =>
        let denoted ← unflagged (memberOf scope denotedTarget name calleeSpan false)
        return .value (← callDenoted scope checked callee denoted arguments span)
    | callee =>
      let denoted ← denote checked callee
      return .value (← callDenoted scope checked callee denoted arguments span)
  | .index target arguments span => do
    let target ← unflagged (toValue scope (← denote checked target))
    let arguments ← bindAll checked arguments
    return .value (← bindIndex scope checked target arguments span)
  | .unary op operand span => do
    let operand ← unflagged (toValue scope (← denote checked operand))
    return .value (← bindUnary scope checked op operand span)
  | .binary op left right span => do
    let left ← unflagged (toValue scope (← denote checked left))
    let right ← unflagged (toValue scope (← denote checked right))
    return .value (← bindBinary scope checked op left right span)
  | .cast name operand span => do
    let operand ← unflagged (toValue scope (← denote checked operand))
    return .value (← bindCast scope checked operand name span)
  | .asType operand name span => do
    match operand with
    | .member target member memberSpan =>
      let target ← denote checked target
      let denoted ← unflagged (memberOf scope target member memberSpan true)
      let operand ← unflagged (toValue scope denoted)
      return .value (← bindAsType scope checked operand name span)
    | operand =>
      let operand ← unflagged (toValue scope (← denote checked operand))
      return .value (← bindAsType scope checked operand name span)
  | .guarded on operand _ => denote on operand

def bindAll (checked : Bool) (es : List Expr) : Recording (List BoundExpr) :=
  match es with
  | [] => return []
  | e :: rest => do
    let first ← unflagged (toValue scope (← denote checked e))
    return first :: (← bindAll checked rest)

end

def bind (e : Expr) : Recording BoundExpr := do unflagged (toValue scope (← denote scope checked e))

end Binding.Lexical

end EventScript
