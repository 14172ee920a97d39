import EventScript.Bound
import EventScript.Proofs.Binding.Compiling
import EventScript.Proofs.Placement.Tokens

namespace EventScript

variable {P : Span → Prop}

-- Everything that has been reported is at a place with the property.
def Compilation.Reported (P : Span → Prop) (s : Compilation) : Prop :=
  ∀ d ∈ s.diagnostics, P d.span

namespace BoundExpr

-- Every node has such a place and holds those of its operands.
def Placed (P : Span → Prop) (e : BoundExpr) : Prop :=
  ∀ node ∈ e.nodes, P node.span ∧ ∀ operand ∈ node.operands, operand.span ⊆ node.span

def PlacedIn (P : Span → Prop) (outer : Span) (e : BoundExpr) : Prop :=
  e.Placed P ∧ e.span ⊆ outer

namespace PlacedIn

variable {e : BoundExpr} {op : BoundOp} {type : TypeId} {span outer : Span}
  {operands : List BoundExpr}

theorem widen (h : e.PlacedIn P span) (hs : span ⊆ outer) : e.PlacedIn P outer :=
  ⟨h.1, Span.subset_trans h.2 hs⟩

theorem place (h : e.PlacedIn P outer) : P e.span := (h.1 e e.self_mem_nodes).1

theorem self (h : e.PlacedIn P outer) : e.PlacedIn P e.span := ⟨h.1, Span.subset_rfl⟩

theorem node (hs : P span) (h : ∀ operand ∈ operands, operand.PlacedIn P span) :
    (BoundExpr.node op type span operands).PlacedIn P span :=
  ⟨forall_mem_nodes.mpr ⟨⟨hs, fun operand ho => (h operand ho).2⟩,
    fun operand ho => (h operand ho).1⟩, Span.subset_rfl⟩

theorem failed (hs : P span) : (BoundExpr.failed span).PlacedIn P span := node hs nofun

-- A node that is taken for a larger place still holds its operands.
theorem withSpan (h : e.PlacedIn P span) (hs : P span) : (e.withSpan span).PlacedIn P span := by
  obtain ⟨op, type, own, operands⟩ := e
  obtain ⟨⟨-, hheld⟩, hinside⟩ := forall_mem_nodes.mp h.1
  exact node hs fun operand ho => ⟨hinside operand ho, Span.subset_trans (hheld operand ho) h.2⟩

end PlacedIn

end BoundExpr

namespace Compiling.Gives

open Compilation

variable {α β : Type} {Q : α → Prop} {R : β → Prop}

theorem andThenAny {m : Compiling α} {f : α → Compiling β}
    (hm : Gives (Reported P) m fun _ => True) (hf : ∀ a, Gives (Reported P) (f a) R) :
    Gives (Reported P) (m >>= f) R :=
  hm.bind fun a _ => hf a

theorem silent {m : Compiling α} (hm : ∀ s, (m s).2.diagnostics = s.diagnostics) :
    Gives (Reported P) m fun _ => True := by
  refine fun s hs => ⟨?_, trivial⟩
  unfold Reported
  rw [hm s]
  exact hs

theorem faultAt {r : Runtime} {f : BindingFault} {span : Span} (h : P span) :
    Gives (Reported P) (fault r f span) fun _ => True := by
  refine fun s hs => ⟨?_, trivial⟩
  cases hf : s.flags.hasAll .probingMode with
  | true =>
      have hrun : (Compiling.fault r f span s).2 = s := if_pos hf
      rw [hrun]
      exact hs
  | false =>
      rw [fault_kept r f span hf]
      exact List.forall_mem_append.mpr ⟨hs, List.forall_mem_singleton.mpr h⟩

theorem giveUpAt {r : Runtime} {f : BindingFault} {span : Span} {a : α} (h : P span) (hq : Q a) :
    Gives (Reported P) (do fault r f span; return a) Q :=
  andThenAny (faultAt h) fun _ => .pure hq

-- The flags decide whether something is reported, not where.
theorem inAnyScope {enter : ScopeFlags → ScopeFlags × FlagsGuard} {body : Compiling α}
    (h : Gives (Reported P) body Q) : Gives (Reported P) (inScope enter body) Q :=
  fun s hs => h { s with flags := (enter s.flags).1 } hs

theorem folded {f : α → β → Compiling α} {bs : List β}
    (h : ∀ a, ∀ b ∈ bs, Gives (Reported P) (f a b) fun _ => True) (a : α) :
    Gives (Reported P) (bs.foldlM f a) fun _ => True := by
  induction bs generalizing a with
  | nil => exact .pure trivial
  | cons b bs ih =>
      rw [List.foldlM_cons]
      refine (h a b List.mem_cons_self).andThenAny fun next => ?_
      exact ih (fun a b hb => h a b (List.mem_cons_of_mem _ hb)) next

end Compiling.Gives

end EventScript
