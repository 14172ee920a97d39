import EventScript.Dispatch
import EventScript.Expr

namespace EventScript

-- What a node of a bound tree does with its operands.
inductive BoundOp where
  | literal (value : Literal)
  | parameter (name : String)
  -- Converts its operand.
  | convert (conversion : Conversion) (descriptor : Descriptor) (checked : Bool)
  | unary (op : UnaryOperator) (descriptor : Descriptor) (checked : Bool)
  | binary (op : BinaryOperator) (descriptor : Descriptor) (checked : Bool)
  -- Reads a property of its operand.
  | property (declaring : TypeId) (name : String)
  | staticProperty (declaring : TypeId) (name : String)
  -- Calls a method on its first operand.
  | call (method : MethodId)
  | staticCall (method : MethodId)
  -- Calls an extension method; the receiver is the first argument.
  | extensionCall (method : MethodId)
  -- An operation on an object, settled at run time.
  | dynamic (descriptor : Descriptor)
  -- Stands for an expression with an error that has been reported.
  | error
deriving DecidableEq, Repr, Inhabited

namespace BoundOp

def isError : BoundOp → Bool
  | error => true
  | _ => false

def descriptor? : BoundOp → Option Descriptor
  | convert _ descriptor _ | unary _ descriptor _ | binary _ descriptor _ | dynamic descriptor =>
    some descriptor
  | _ => none

def conversion? : BoundOp → Option Conversion
  | convert conversion _ _ => some conversion
  | _ => none

end BoundOp

-- A bound expression: what it does, its static type, its place, and its operands in order.
inductive BoundExpr where
  | node (op : BoundOp) (type : TypeId) (span : Span) (operands : List BoundExpr)
deriving Repr, Inhabited

namespace BoundExpr

def op : BoundExpr → BoundOp
  | node op _ _ _ => op

def type : BoundExpr → TypeId
  | node _ type _ _ => type

def span : BoundExpr → Span
  | node _ _ span _ => span

def operands : BoundExpr → List BoundExpr
  | node _ _ _ operands => operands

def isError (e : BoundExpr) : Bool := e.op.isError

-- The same expression for another place.
def withSpan (span : Span) : BoundExpr → BoundExpr
  | node op type _ operands => node op type span operands

-- An expression that failed to bind.
def failed (span : Span) : BoundExpr := node .error .object span []

-- An operation on an object; its result is again an object.
def dynamic (descriptor : Descriptor) (operands : List BoundExpr) (span : Span) : BoundExpr :=
  node (.dynamic descriptor) .object span operands

-- The expression and all expressions inside it, each before its operands.
def nodes : BoundExpr → List BoundExpr
  | node op type span operands => node op type span operands :: (operands.map nodes).flatten
termination_by e => sizeOf e

theorem self_mem_nodes (e : BoundExpr) : e ∈ e.nodes := by
  obtain ⟨op, type, span, operands⟩ := e
  simp [nodes]

theorem forall_mem_nodes {P : BoundExpr → Prop} {op : BoundOp} {type : TypeId} {span : Span}
    {operands : List BoundExpr} :
    (∀ e ∈ (node op type span operands).nodes, P e) ↔
      P (node op type span operands) ∧ ∀ operand ∈ operands, ∀ e ∈ operand.nodes, P e := by
  simp only [nodes, List.forall_mem_cons, List.mem_flatten, List.mem_map]
  refine and_congr Iff.rfl ⟨fun h operand ho e he => ?_, ?_⟩
  · exact h e ⟨operand.nodes, ⟨operand, ho, rfl⟩, he⟩
  · rintro h e ⟨_, ⟨operand, ho, rfl⟩, he⟩
    exact h operand ho e he

def descriptors (e : BoundExpr) : List Descriptor := e.nodes.filterMap (·.op.descriptor?)

end BoundExpr

end EventScript
