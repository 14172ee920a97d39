import EventScript.Binding.Binder
import EventScript.Proofs.Conversion.Steadiness

namespace EventScript

open Binding

section

variable (t : TypeTable) (parameters : List (String × TypeId))

-- A node that converts: the conversion is the one that is found for the type of the operand, and
-- the descriptor asks for just this one. Only where a script tries may it be one that fails.
structure Conversion.TypedAs (conversion : Conversion) (key : DispatchKey) (operand type : TypeId) :
    Prop where
  source_eq : conversion.source = operand
  found : conversion = (resolve t operand conversion.target conversion.mode).answer
  key_eq : key = .convert conversion.target conversion.mode ∨
    key = .convertToObject conversion.target conversion.mode
  type_eq : type = conversion.resultType
  failure : conversion.plan.isFailure = true → conversion.mode = .explicitTry

namespace Binding

-- The type that a unary operator has as operand and as result.
def UnaryTyped (op : UnaryOperator) (type : TypeId) : Prop :=
  type = .object ∨ (op = .not ∧ type = .boolean) ∨ (op ≠ .not ∧ ∃ kind, type = .numeric kind)

-- What the two operands of a binary operator can be, and what it then results in.
inductive BinaryTyped (op : BinaryOperator) : TypeId → TypeId → TypeId → Prop
  | object {left right : TypeId} : left = .object ∨ right = .object →
      BinaryTyped op left right .object
  | logical : op.isLogical = true → BinaryTyped op .boolean .boolean .boolean
  | concatenation {left right : TypeId} : op = .add → left = .string ∨ right = .string →
      (left = .string ∨ left = .object) → (right = .string ∨ right = .object) →
      BinaryTyped op left right .string
  | arithmetic (kind : NumericKind) : op.isArithmetic = true →
      BinaryTyped op (.numeric kind) (.numeric kind) (.numeric kind)
  | comparison (kind : NumericKind) : (op.isEquality || op.isRelational) = true →
      BinaryTyped op (.numeric kind) (.numeric kind) .boolean
  | equality {type : TypeId} : op.isEquality = true → BinaryTyped op type type .boolean

-- A property as a node reads it: it is declared on the definition of some type that the owner
-- inherits from, and its type is the declared one as seen from there.
def PropertyTyped (owner declaring : TypeId) (name : String) (isStatic : Bool) (type : TypeId) :
    Prop :=
  ∃ ancestor ∈ t.lineage owner, declaring = t.openDefinition ancestor ∧
    ∃ p ∈ (t.get declaring).properties, p.name = name ∧ p.isStatic = isStatic ∧
      type = t.seenFrom p.type ancestor

-- Arguments have the type of their parameter, except that a parameter which stays open takes what
-- fits its shape.
def Fits (parameter : TypeId) (argument : BoundExpr) : Prop :=
  if t.mentionsParameter parameter then t.isAssignableOpen parameter argument.type = true
  else argument.type = parameter

-- A call of a method on a receiver, whose type settles the generic parameters.
structure CallTyped (method : MethodId) (receiver : Option TypeId) (arguments : List BoundExpr)
    (type : TypeId) : Prop where
  isPublic : (t.method method).isPublic = true
  fits : List.Forall₂ (Fits t) (parameterTypes t method receiver) arguments
  type_eq : type = returnType t method receiver

-- The receiver of an extension is its first argument before the conversion to the parameter type.
def IsReceiver (receiver : TypeId) (argument : BoundExpr) : Prop :=
  receiver = argument.type ∨ ∃ conversion ∈ argument.op.conversion?, receiver = conversion.source

-- The operations on objects, by the number of their operands behind the object.
def IsDynamic : DispatchKey → Nat → Prop
  | .getMember _ _, count => count = 0
  | .invoke argumentCount, count | .getIndex argumentCount, count
  | .invokeMember _ argumentCount, count => argumentCount = count
  | _, _ => False

end Binding

namespace BoundOp

-- What has to hold between a node, its operands and its static type.
def Typed : BoundOp → List BoundExpr → TypeId → Prop
  | literal value, operands, type => operands = [] ∧ type = literalType value
  | parameter name, operands, type => operands = [] ∧ parameters.lookup name = some type
  | convert conversion descriptor _, operands, type =>
      ∃ operand, operands = [operand] ∧ conversion.TypedAs t descriptor.key operand.type type
  | unary op descriptor _, operands, type =>
      ∃ operand, operands = [operand] ∧ descriptor.key = .unary op ∧ operand.type = type ∧
        UnaryTyped op type
  | binary op descriptor _, operands, type =>
      ∃ left right, operands = [left, right] ∧ descriptor.key = .binary op ∧
        BinaryTyped op left.type right.type type
  | property declaring name, operands, type =>
      ∃ operand, operands = [operand] ∧ PropertyTyped t operand.type declaring name false type
  | staticProperty declaring name, operands, type =>
      operands = [] ∧ ∃ owner, PropertyTyped t owner declaring name true type
  | call method, operands, type =>
      ∃ receiver arguments, operands = receiver :: arguments ∧
        (t.method method).isStatic = false ∧ (t.method method).isExtension = false ∧
        CallTyped t method (some receiver.type) arguments type
  | staticCall method, operands, type =>
      (t.method method).isStatic = true ∧ (t.method method).isExtension = false ∧
        CallTyped t method none operands type
  | extensionCall method, operands, type =>
      (t.method method).isStatic = true ∧ (t.method method).isExtension = true ∧
        ∃ receiver, CallTyped t method receiver operands type ∧
          ∀ id ∈ receiver, ∃ argument ∈ operands.head?, IsReceiver id argument
  | dynamic descriptor, operands, type =>
      type = .object ∧ ∃ target arguments, operands = target :: arguments ∧
        target.type = .object ∧ IsDynamic descriptor.key arguments.length
  | error, _, _ => False

end BoundOp

namespace BoundExpr

def Typed (e : BoundExpr) : Prop := e.op.Typed t parameters e.operands e.type

-- Every node of the expression is typed.
def WellTyped (e : BoundExpr) : Prop := ∀ node ∈ e.nodes, node.Typed t parameters

end BoundExpr

end

namespace BoundExpr

variable {t : TypeTable} {parameters : List (String × TypeId)}

theorem wellTyped_node {op : BoundOp} {type : TypeId} {span : Span}
    {operands : List BoundExpr} :
    (node op type span operands).WellTyped t parameters ↔
      op.Typed t parameters operands type ∧
        ∀ operand ∈ operands, operand.WellTyped t parameters :=
  forall_mem_nodes

theorem WellTyped.isError_eq {e : BoundExpr} (h : e.WellTyped t parameters) :
    e.isError = false := by
  cases e with
  | node op type span operands =>
      cases op with
      | error => exact (wellTyped_node.mp h).1.elim
      | _ => rfl

theorem WellTyped.withSpan {e : BoundExpr} (h : e.WellTyped t parameters) (span : Span) :
    (e.withSpan span).WellTyped t parameters := by
  cases e with
  | node => exact wellTyped_node.mpr (wellTyped_node.mp h)

end BoundExpr

end EventScript
