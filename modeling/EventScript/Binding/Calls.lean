import EventScript.Binding.Converting
import EventScript.Binding.MemberLookup

namespace EventScript.Binding

open Compiling

variable (scope : BindingScope)

-- What the methods of a group are called on.
inductive GroupTarget where
  | static
  | instanceOf (receiver : BoundExpr)
  | extension (receiver : BoundExpr)
deriving Repr, Inhabited

def GroupTarget.receiver? : GroupTarget → Option BoundExpr
  | static => none
  | instanceOf receiver | extension receiver => some receiver

-- Methods that share a name, before one of them is called.
structure MethodGroup where
  name : String
  target : GroupTarget
  methods : List MethodId
  span : Span
deriving Repr, Inhabited

namespace MethodGroup

def receiverType? (group : MethodGroup) : Option TypeId := group.target.receiver?.map (·.type)

-- The arguments of a call; an extension takes its receiver as the first of them.
def arguments (group : MethodGroup) (given : List BoundExpr) : List BoundExpr :=
  match group.target with
  | .extension receiver => receiver :: given
  | _ => given

end MethodGroup

inductive Overload where
  | found (method : MethodId)
  | ambiguous (first second : MethodId)
  | noMatch
deriving DecidableEq, Repr, Inhabited

-- The extension methods of that name on a receiver, if there are any.
def extensionGroup (receiver : BoundExpr) (name : String) (span : Span) :
    Compiling (Option MethodGroup) := do
  match ← search (scope.names.extensionMethods scope.runtime receiver.type name) with
  | [] => return none
  | methods => return some ⟨name, .extension receiver, methods, span⟩

-- Whether an argument can be passed for a parameter; open parameters take what fits their shape.
def accepts (level : NarrowingLevel) (parameter argument : TypeId) : MemberSearch Bool :=
  if scope.types.mentionsParameter parameter then
    pure (scope.types.isAssignableOpen parameter argument)
  else Conversion.isPossible scope.types argument parameter level

-- Whether each argument can be passed for its parameter.
def acceptsEach (level : NarrowingLevel) : List (TypeId × TypeId) → MemberSearch Bool
  | [] => pure true
  | (parameter, argument) :: rest => do
    if ← accepts scope level parameter argument then acceptsEach level rest else return false

-- Whether there are as many arguments as parameters and each can be passed.
def acceptsAll (level : NarrowingLevel) (parameters arguments : List TypeId) :
    MemberSearch Bool :=
  if parameters.length = arguments.length then
    acceptsEach scope level (parameters.zip arguments)
  else pure false

def applicable (level : NarrowingLevel) (receiver : Option TypeId) (arguments : List TypeId) :
    List MethodId → MemberSearch (List MethodId)
  | [] => pure []
  | method :: methods => do
    let fits ← acceptsAll scope level (parameterTypes scope.types method receiver) arguments
    let others ← applicable level receiver arguments methods
    return if fits then method :: others else others

-- The better of two applicable methods, told by the first parameter in which they differ.
def better (receiver : Option TypeId) (first second : MethodId) : Overload :=
  let parameters := (parameterTypes scope.types first receiver).zip
    (parameterTypes scope.types second receiver)
  let preference := match parameters.find? fun (a, b) => a ≠ b with
    | some (a, b) => Conversion.prefer a b
    | none => .equivalent
  match preference with
  | .first => .found first
  | .second => .found second
  | .equivalent | .ambiguous => .ambiguous first second

-- Chooses a method at the first level at which some method is applicable.
def chooseAt (group : MethodGroup) (arguments : List TypeId) :
    List NarrowingLevel → MemberSearch Overload
  | [] => pure .noMatch
  | level :: levels => do
    match ← applicable scope level group.receiverType? arguments group.methods with
    | [] => chooseAt group arguments levels
    | [only] => return .found only
    | first :: second :: _ => return better scope group.receiverType? first second

-- Methods that take the arguments as they are come before those that convert them.
def selectOverload (group : MethodGroup) (arguments : List TypeId) : Compiling Overload :=
  inScope (·.enterOn .probingMode) (search (chooseAt scope group arguments [.none, .one]))

-- The arguments converted to the parameter types; for open parameters they stay as they are.
def convertArguments : List TypeId → List BoundExpr → Compiling (List BoundExpr)
  | parameter :: parameters, argument :: arguments => do
    let first ←
      if scope.types.mentionsParameter parameter then pure argument
      else convert scope argument parameter .implicitCast
    return first :: (← convertArguments parameters arguments)
  | _, _ => pure []

def buildCall (group : MethodGroup) (method : MethodId) (given : List BoundExpr) (span : Span) :
    Compiling BoundExpr := do
  let receiver := group.receiverType?
  let converted ← convertArguments scope (parameterTypes scope.types method receiver)
    (group.arguments given)
  let result := returnType scope.types method receiver
  if (scope.types.method method).isExtension then
    return .node (.extensionCall method) result span converted
  else
    match group.target with
    | .instanceOf receiver => return .node (.call method) result span (receiver :: converted)
    | _ => return .node (.staticCall method) result span converted

-- Calls a method of the group, or goes on otherwise when none is applicable.
def callGroupOr (group : MethodGroup) (given : List BoundExpr) (span : Span)
    (otherwise : Compiling BoundExpr) : Compiling BoundExpr := do
  match ← selectOverload scope group ((group.arguments given).map (·.type)) with
  | .found method => buildCall scope group method given span
  | .ambiguous first second =>
    fault scope.runtime (.ambiguousCall first second) group.span
    return .failed span
  | .noMatch => otherwise

-- The report that no method of the group takes the arguments.
def refuseCall (group : MethodGroup) (given : List BoundExpr) (span : Span) :
    Compiling BoundExpr := do
  fault scope.runtime (.noOverload group.name given.length) group.span
  return .failed span

-- Calls a method of the group. Methods of an instance that do not fit give way to extensions.
def callGroup (group : MethodGroup) (given : List BoundExpr) (span : Span) :
    Compiling BoundExpr :=
  callGroupOr scope group given span do
    match group.target with
    | .instanceOf receiver =>
      match ← extensionGroup scope receiver group.name group.span with
      | some extensions =>
        callGroupOr scope extensions given span (refuseCall scope extensions given span)
      | none => refuseCall scope group given span
    | _ => refuseCall scope group given span

end EventScript.Binding
