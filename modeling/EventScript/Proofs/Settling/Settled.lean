import EventScript.Proofs.Binding.WellTyped
import EventScript.Proofs.Host.NamedTypes

namespace EventScript

open Binding

section

variable (t : TypeTable)

namespace Binding

-- A property whose declared type mentions a parameter, which the type that it is found on leaves
-- open.
def PropertyLeftOpen (owner declaring : TypeId) (name : String) (isStatic : Bool) : Prop :=
  ∃ ancestor ∈ t.lineage owner, declaring = t.openDefinition ancestor ∧
    ∃ p ∈ (t.get declaring).properties, p.name = name ∧ p.isStatic = isStatic ∧
      t.StaysOpen p.type (some ancestor)

-- A call of a method whose declared result mentions a parameter, which the receiver leaves open.
def CallLeftOpen (method : MethodId) (receiver : Option TypeId) : Prop :=
  t.StaysOpen (t.method method).returns (genericContext? t method receiver)

end Binding

namespace BoundOp

-- An access to a member that takes over a declared type which the access does not close.
def LeavesOpen (operands : List BoundExpr) : BoundOp → Prop
  | property declaring name =>
      ∃ operand ∈ operands.head?, PropertyLeftOpen t operand.type declaring name false
  | staticProperty declaring name => ∃ owner, PropertyLeftOpen t owner declaring name true
  | call method => ∃ receiver ∈ operands.head?, CallLeftOpen t method (some receiver.type)
  | staticCall method => CallLeftOpen t method none
  | extensionCall method =>
      ∃ receiver, CallLeftOpen t method receiver ∧
        ∀ id ∈ receiver, ∀ argument ∈ operands.head?, argument.isError = false →
          IsReceiver id argument
  | _ => False

def isEquality : BoundOp → Bool
  | binary op _ _ => op.isEquality
  | _ => false

end BoundOp

namespace BoundExpr

def LeavesOpen (e : BoundExpr) : Prop := e.op.LeavesOpen t e.operands

-- Each operand of an open type is an access that leaves it open, or it is brought to the type of
-- such an access on the other side of an equality.
def SettlesOperands (e : BoundExpr) : Prop :=
  ∀ operand ∈ e.operands, t.mentionsParameter operand.type = true → operand.LeavesOpen t ∨
    e.op.isEquality = true ∧ ∃ other ∈ e.operands, other.type = operand.type ∧ other.LeavesOpen t

-- An expression in which open types come from nothing but such accesses.
structure Settled (e : BoundExpr) : Prop where
  leavesOpen : t.mentionsParameter e.type = true → e.LeavesOpen t
  settlesOperands : ∀ node ∈ e.nodes, node.SettlesOperands t

end BoundExpr

end

theorem Binding.staysOpen_of_seenIn {t : TypeTable} (hw : t.WellFormed)
    {context : Option TypeId} {declared : TypeId}
    (h : t.mentionsParameter (seenIn t context declared) = true) :
    t.StaysOpen declared context := by
  cases context with
  | none => exact ⟨h, .noArguments⟩
  | some «instance» => exact TypeTable.staysOpen_of_seenFrom hw h

namespace BoundExpr

variable {t : TypeTable} {op : BoundOp} {type : TypeId} {span : Span} {operands : List BoundExpr}

theorem Settled.node (h : ∀ operand ∈ operands, operand.Settled t)
    (hself : t.mentionsParameter type = true → op.LeavesOpen t operands) :
    (node op type span operands).Settled t :=
  ⟨hself, forall_mem_nodes.mpr ⟨fun operand ho hopen => .inl ((h operand ho).leavesOpen hopen),
    fun operand ho => (h operand ho).settlesOperands⟩⟩

theorem Settled.of_closed (h : ∀ operand ∈ operands, operand.Settled t)
    (hclosed : t.mentionsParameter type = false) :
    (BoundExpr.node op type span operands).Settled t :=
  .node h fun hopen => absurd hopen (by simp [hclosed])

theorem Settled.failed (hg : TypeTable.initial.GrowsTo t) (span : Span) :
    (failed span).Settled t :=
  .of_closed (by simp) (TypeTable.mentionsParameter_object hg)

theorem Settled.withSpan {e : BoundExpr} (h : e.Settled t) (span : Span) :
    (e.withSpan span).Settled t := by
  obtain ⟨op, type, own, operands⟩ := e
  obtain ⟨hroot, hinside⟩ := forall_mem_nodes.mp h.settlesOperands
  exact ⟨h.leavesOpen, forall_mem_nodes.mpr ⟨hroot, hinside⟩⟩

end BoundExpr

-- What a conversion makes of an expression: the same, a failure, or a node that converts it.
inductive ConvertsTo (e : BoundExpr) (target : TypeId) : BoundExpr → Prop
  | same : ConvertsTo e target e
  | failed : ConvertsTo e target (.failed e.span)
  | node {conversion : Conversion} {descriptor : Descriptor} {checked : Bool} {type : TypeId} :
      conversion.source = e.type → type = target ∨ type = .object →
      ConvertsTo e target (.node (.convert conversion descriptor checked) type e.span [e])

namespace ConvertsTo

variable {t : TypeTable} {e converted : BoundExpr} {target : TypeId}

theorem settlesOperands (h : ConvertsTo e target converted) (he : e.Settled t) :
    ∀ node ∈ converted.nodes, node.SettlesOperands t := by
  cases h with
  | same => exact he.settlesOperands
  | failed =>
      refine BoundExpr.forall_mem_nodes.mpr ⟨?_, by simp⟩
      simp [BoundExpr.SettlesOperands, BoundExpr.operands]
  | node hsource htype =>
      refine BoundExpr.forall_mem_nodes.mpr ⟨?_, by simpa using he.settlesOperands⟩
      intro operand hm hopen
      obtain rfl := List.mem_singleton.mp hm
      exact .inl (he.leavesOpen hopen)

-- An open type behind a conversion was there before it, or it is what has been converted to.
theorem leavesOpen_or (h : ConvertsTo e target converted) (hg : TypeTable.initial.GrowsTo t)
    (he : e.Settled t) (hopen : t.mentionsParameter converted.type = true) :
    converted.LeavesOpen t ∨ converted.type = target := by
  have hobject := TypeTable.mentionsParameter_object hg
  cases h with
  | same => exact .inl (he.leavesOpen hopen)
  | failed => exact absurd hopen (by simpa [BoundExpr.failed, BoundExpr.type] using hobject)
  | node hsource htype =>
      rcases htype with rfl | rfl
      · exact .inr rfl
      · exact absurd hopen (by simpa [BoundExpr.type] using hobject)

theorem settled (h : ConvertsTo e target converted) (hg : TypeTable.initial.GrowsTo t)
    (he : e.Settled t) (ht : t.mentionsParameter target = false) : converted.Settled t := by
  refine ⟨fun hopen => ?_, h.settlesOperands he⟩
  rcases h.leavesOpen_or hg he hopen with hl | rfl
  · exact hl
  · simp [ht] at hopen

theorem isReceiver (h : ConvertsTo e target converted) (herr : converted.isError = false) :
    IsReceiver e.type converted := by
  cases h with
  | same => exact .inl rfl
  | failed => cases herr
  | node hsource htype => exact .inr ⟨_, rfl, hsource.symm⟩

end ConvertsTo

end EventScript
