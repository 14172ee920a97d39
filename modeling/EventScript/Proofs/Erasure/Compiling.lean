import EventScript.Bound
import EventScript.Proofs.Binding.Compiling
import EventScript.Proofs.Expr.Layout

namespace EventScript

-- Bound trees, messages and compilations without places

def BoundExpr.eraseSpans : BoundExpr → BoundExpr
  | node op type _ operands => node op type .none (operands.map eraseSpans)
termination_by e => sizeOf e

namespace BoundExpr

theorem eraseSpans_node (op : BoundOp) (type : TypeId) (span : Span) (operands : List BoundExpr) :
    (node op type span operands).eraseSpans = node op type .none (operands.map eraseSpans) := by
  rw [eraseSpans]

theorem eraseSpans_withSpan (e : BoundExpr) (span : Span) :
    (e.withSpan span).eraseSpans = e.eraseSpans.withSpan .none := by
  obtain ⟨op, type, own, operands⟩ := e
  rw [withSpan, eraseSpans_node, eraseSpans_node, withSpan]

@[simp] theorem type_eraseSpans (e : BoundExpr) : e.eraseSpans.type = e.type := by
  obtain ⟨op, type, span, operands⟩ := e
  rw [eraseSpans_node, BoundExpr.type, BoundExpr.type]

@[simp] theorem span_eraseSpans (e : BoundExpr) : e.eraseSpans.span = .none := by
  obtain ⟨op, type, span, operands⟩ := e
  rw [eraseSpans_node, BoundExpr.span]

@[simp] theorem isError_eraseSpans (e : BoundExpr) : e.eraseSpans.isError = e.isError := by
  obtain ⟨op, type, span, operands⟩ := e
  rw [eraseSpans_node, isError, isError, BoundExpr.op, BoundExpr.op]

@[simp] theorem types_eraseSpans (es : List BoundExpr) :
    (es.map eraseSpans).map (·.type) = es.map (·.type) := by
  rw [List.map_map]
  exact List.map_congr_left fun e _ => e.type_eraseSpans

@[simp] theorem any_isError_eraseSpans (es : List BoundExpr) :
    (es.map eraseSpans).any (·.isError) = es.any (·.isError) := by
  rw [List.any_map]
  exact congrArg es.any (funext isError_eraseSpans)

end BoundExpr

def Diagnostic.eraseSpan (d : Diagnostic) : Diagnostic := { d with span := .none }

theorem Diagnostic.countErrors_eraseSpan (ds : List Diagnostic) :
    countErrors (ds.map eraseSpan) = countErrors ds :=
  List.countP_map

theorem BindingFault.eraseSpan_toDiagnostic (r : Runtime) (f : BindingFault) (span : Span) :
    (f.toDiagnostic r span).eraseSpan = f.toDiagnostic r .none := rfl

def Compilation.eraseSpans (s : Compilation) : Compilation :=
  { s with diagnostics := s.diagnostics.map Diagnostic.eraseSpan }

namespace Compiling

variable {α β γ δ : Type} {erase : α → β} {keep : γ → δ}

-- Where places are left out, the second step does what the first one does where they are kept.
def Erases (erase : α → β) (m : Compiling α) (m' : Compiling β) : Prop :=
  ∀ s : Compilation, m' s.eraseSpans = (erase (m s).1, (m s).2.eraseSpans)

namespace Erases

theorem pure {a : α} {b : β} (h : b = erase a) :
    Erases erase (pure a : Compiling α) (pure b : Compiling β) := by
  intro s
  rw [h]
  rfl

theorem bind {m : Compiling α} {m' : Compiling β} {f : α → Compiling γ} {f' : β → Compiling δ}
    (hm : Erases erase m m') (hf : ∀ a, Erases keep (f a) (f' (erase a))) :
    Erases keep (m >>= f) (m' >>= f') := by
  intro s
  rw [bind_apply, bind_apply, hm s]
  exact hf (m s).1 (m s).2

-- A step whose result knows no places, and what follows it.
theorem bindSame {m m' : Compiling α} {f : α → Compiling γ} {f' : α → Compiling δ}
    (hm : Erases id m m') (hf : ∀ a, Erases keep (f a) (f' a)) :
    Erases keep (m >>= f) (m' >>= f') :=
  hm.bind hf

theorem search (m : MemberSearch α) : Erases id (search m) (search m) := fun _ => rfl

theorem descriptor (key : DispatchKey) : Erases id (descriptor key) (descriptor key) :=
  fun _ => rfl

theorem isChecked : Erases id isChecked isChecked := fun _ => rfl

theorem errorCount : Erases id errorCount errorCount :=
  fun s => congrArg (Prod.mk · s.eraseSpans) (Diagnostic.countErrors_eraseSpan s.diagnostics)

theorem fault (r : Runtime) (f : BindingFault) (span : Span) :
    Erases id (fault r f span) (fault r f .none) := by
  intro s
  refine congrArg (Prod.mk ()) ?_
  change (if s.flags.hasAll .probingMode then s.eraseSpans else _ : Compilation) =
    (if s.flags.hasAll .probingMode then s else _ : Compilation).eraseSpans
  split
  · rfl
  · simp only [Compilation.eraseSpans, List.map_append, List.map_singleton,
      BindingFault.eraseSpan_toDiagnostic]

-- A step that reports a fault and gives up.
theorem giveUp {r : Runtime} {f : BindingFault} {span : Span} {a : α} {b : β} (h : b = erase a) :
    Erases erase (do Compiling.fault r f span; return a)
      (do Compiling.fault r f .none; return b) :=
  (fault r f span).bind fun _ => .pure h

-- A node is made of operands, whose places are left out.
theorem node {op : BoundOp} {type : TypeId} {span : Span} {operands operands' : List BoundExpr}
    (h : operands' = operands.map BoundExpr.eraseSpans) :
    Erases BoundExpr.eraseSpans (Pure.pure (.node op type span operands) : Compiling BoundExpr)
      (Pure.pure (.node op type .none operands')) :=
  .pure (by rw [h, BoundExpr.eraseSpans_node])

theorem failed {span : Span} :
    Erases BoundExpr.eraseSpans (Pure.pure (.failed span) : Compiling BoundExpr)
      (Pure.pure (.failed .none)) :=
  .node rfl

-- A step that reports a fault and fails.
theorem refuse {r : Runtime} {f : BindingFault} {span place : Span} :
    Erases BoundExpr.eraseSpans (do Compiling.fault r f span; return .failed place)
      (do Compiling.fault r f .none; return .failed .none) :=
  (fault r f span).bind fun _ => .failed

theorem inScope {enter : ScopeFlags → ScopeFlags × FlagsGuard} {body : Compiling α}
    {body' : Compiling β} (h : Erases erase body body') :
    Erases erase (inScope enter body) (inScope enter body') := by
  intro s
  let inner : Compilation := { s with flags := (enter s.flags).1 }
  have hrun : Compiling.inScope enter body' s.eraseSpans = ((body' inner.eraseSpans).1,
      { (body' inner.eraseSpans).2 with
        flags := (body' inner.eraseSpans).2.flags.leave (enter s.flags).2 }) := rfl
  rw [hrun, h inner]
  rfl

-- A fold whose results know no places.
theorem foldlM {ε : Type} {f f' : α → ε → Compiling α} (h : ∀ a b, Erases id (f a b) (f' a b))
    (bs : List ε) (a : α) : Erases id (bs.foldlM f a) (bs.foldlM f' a) := by
  induction bs generalizing a with
  | nil => exact .pure rfl
  | cons b bs ih =>
      rw [List.foldlM_cons, List.foldlM_cons]
      exact (h a b).bindSame ih

end Erases

end Compiling

end EventScript
