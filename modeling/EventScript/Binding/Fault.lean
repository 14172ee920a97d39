import EventScript.Diagnostic
import EventScript.Operator
import EventScript.Runtime

namespace EventScript

inductive BindingFault where
  | operatorNotApplicable (op : BinaryOperator) (left right : TypeId)
  | unaryNotApplicable (op : UnaryOperator) (operand : TypeId)
  | cannotIndex (target : TypeId)
  | cannotConvert (isExplicit : Bool) (source target : TypeId)
  | unknownName (name : String)
  | ambiguousName (name : String) (first second : TypeId)
  | unknownMember (type : TypeId) (name : String)
  | unknownNamespaceMember (home : Entity) (name : String)
  | namespaceAsValue (entity : Entity)
  | typeAsValue (type : TypeId)
  | methodGroupAsValue (name : String)
  | ambiguousCall (first second : MethodId)
  | notInvocable (callee : String)
  | noOverload (name : String) (argumentCount : Nat)
  | unknownType (name : String)
  -- The type is written well, but no such instance has been created.
  | unavailableType (name : String)
  -- A name in the options or in a `using` directive that stands for nothing.
  | unknownReference (name : String)
deriving DecidableEq, Repr

namespace BindingFault

def code : BindingFault → Nat
  | operatorNotApplicable _ _ _ => Code.operatorNotApplicable
  | unaryNotApplicable _ _ => Code.unaryOperatorNotApplicable
  | cannotIndex _ => Code.cannotIndex
  | cannotConvert true _ _ => Code.cannotConvert
  | cannotConvert false _ _ => Code.cannotConvertImplicitly
  | unknownName _ => Code.nameNotFound
  | ambiguousName _ _ _ => Code.ambiguousReference
  | unknownMember _ _ => Code.memberNotFound
  | unknownNamespaceMember _ _ => Code.namespaceMemberNotFound
  | namespaceAsValue _ => Code.namespaceUsedAsValue
  | typeAsValue _ => Code.typeUsedAsValue
  | methodGroupAsValue _ => Code.methodGroupAsValue
  | ambiguousCall _ _ => Code.ambiguousCall
  | notInvocable _ => Code.notInvocable
  | noOverload _ _ => Code.noMatchingOverload
  | unknownType _ | unavailableType _ | unknownReference _ => Code.namespaceNotFound

def phase : BindingFault → Phase
  | ambiguousName _ _ _ | unknownReference _ => .nameResolution
  | _ => .binding

def message (r : Runtime) : BindingFault → String
  | operatorNotApplicable op left right =>
    let left := r.types.displayName left
    let right := r.types.displayName right
    s!"Operator '{op.symbol}' cannot be applied to operands of type '{left}' and '{right}'"
  | unaryNotApplicable op operand =>
    let operand := r.types.displayName operand
    s!"Operator '{op.symbol}' cannot be applied to operand of type '{operand}'"
  | cannotIndex target =>
    let target := r.types.displayName target
    s!"Cannot apply indexing with [] to an expression of type '{target}'"
  | cannotConvert isExplicit source target =>
    let manner := if isExplicit then "convert" else "implicitly convert"
    let source := r.types.displayName source
    let target := r.types.displayName target
    s!"Cannot {manner} type '{source}' to '{target}'"
  | unknownName name => s!"The name '{name}' does not exist in the current context"
  | ambiguousName name first second =>
    let first := r.types.displayName first
    let second := r.types.displayName second
    s!"'{name}' is an ambiguous reference between '{first}' and '{second}'."
  | unknownMember type name =>
    let type := r.types.displayName type
    s!"'{type}' does not contain a definition for '{name}'"
  | unknownNamespaceMember home name =>
    let home := r.tree.displayName r.types home
    s!"The type or namespace name '{name}' does not exist in the namespace '{home}'"
  | namespaceAsValue entity =>
    let entity := r.tree.displayName r.types entity
    s!"'{entity}' is a namespace but is used like a variable"
  | typeAsValue type =>
    let type := r.types.displayName type
    s!"'{type}' is a type, which is not valid in the given context"
  | methodGroupAsValue name => s!"Cannot convert method group '{name}' to non-delegate type"
  | ambiguousCall first second =>
    let first := r.types.signature first
    let second := r.types.signature second
    s!"The call is ambiguous between the following methods: '{first}' and '{second}'"
  | notInvocable callee => s!"Non-invocable member '{callee}' cannot be used like a method"
  | noOverload name argumentCount =>
    s!"No overload for method '{name}' takes {argumentCount} arguments of these types"
  | unknownType name | unknownReference name =>
    s!"The type or namespace name '{name}' could not be found"
  | unavailableType name => s!"The type '{name}' is not available to scripts"

def toDiagnostic (r : Runtime) (fault : BindingFault) (span : Span) : Diagnostic where
  code := fault.code
  message := fault.message r
  span := span
  severity := .error
  phase := fault.phase

end BindingFault

end EventScript
