import EventScript.Bound
import EventScript.Proofs.Binding.Compiling

namespace EventScript

-- Some error that has been reported lies inside the span.
def Explains (ds : List Diagnostic) (span : Span) : Prop :=
  ∃ d ∈ ds, d.isError ∧ d.span ⊆ span

namespace Explains

variable {ds ds' : List Diagnostic} {span outer : Span}

theorem mono (h : Explains ds span) (hsub : ds ⊆ ds') : Explains ds' span := by
  obtain ⟨d, hd, he, hs⟩ := h
  exact ⟨d, hsub hd, he, hs⟩

theorem widen (h : Explains ds span) (hs : span ⊆ outer) : Explains ds outer := by
  obtain ⟨d, hd, he, hds⟩ := h
  exact ⟨d, hd, he, Span.subset_trans hds hs⟩

end Explains

namespace BoundExpr

variable {ds ds' : List Diagnostic} {e : BoundExpr} {op : BoundOp} {type : TypeId} {span : Span}
  {operands : List BoundExpr}

-- Every failure in the tree has been reported where it is.
def Explained (ds : List Diagnostic) (e : BoundExpr) : Prop :=
  ∀ node ∈ e.nodes, node.isError → Explains ds node.span

theorem explained_node : (node op type span operands).Explained ds ↔
    (op.isError → Explains ds span) ∧ ∀ operand ∈ operands, operand.Explained ds :=
  forall_mem_nodes

namespace Explained

theorem mono (h : e.Explained ds) (hsub : ds ⊆ ds') : e.Explained ds' :=
  fun node hn he => (h node hn he).mono hsub

theorem of_isError (h : e.Explained ds) (he : e.isError) : Explains ds e.span := by
  obtain ⟨op, type, span, operands⟩ := e
  exact (explained_node.mp h).1 he

theorem failed (h : Explains ds span) : (failed span).Explained ds :=
  explained_node.mpr ⟨fun _ => h, by simp⟩

theorem withSpan (h : e.Explained ds) (hs : e.span ⊆ span) : (e.withSpan span).Explained ds := by
  obtain ⟨op, type, own, operands⟩ := e
  obtain ⟨hop, hoperands⟩ := explained_node.mp h
  exact explained_node.mpr ⟨fun he => (hop he).widen hs, hoperands⟩

end Explained

end BoundExpr

namespace Compiling

variable {α β : Type} {ds : List Diagnostic} {P Q : List Diagnostic → α → Prop}
  {R : List Diagnostic → β → Prop}

-- A step that starts with these messages and keeps faults only adds to them, and then its result
-- is as described.
def Reports (ds : List Diagnostic) (m : Compiling α) (Q : List Diagnostic → α → Prop) : Prop :=
  ∀ s : Compilation, s.diagnostics = ds → s.flags.hasAll .probingMode = false →
    (m s).2.flags.hasAll .probingMode = false ∧ ds ⊆ (m s).2.diagnostics ∧
      Q (m s).2.diagnostics (m s).1

namespace Reports

theorem imp {m : Compiling α} (h : Reports ds m P)
    (hq : ∀ ds' a, ds ⊆ ds' → P ds' a → Q ds' a) : Reports ds m Q := by
  intro s hs hf
  obtain ⟨hflags, hsub, hp⟩ := h s hs hf
  exact ⟨hflags, hsub, hq _ _ hsub hp⟩

theorem pure {a : α} (h : Q ds a) : Reports ds (pure a) Q := by
  rintro s rfl hf
  exact ⟨hf, List.Subset.refl _, h⟩

theorem bind {m : Compiling α} {f : α → Compiling β} (hm : Reports ds m P)
    (hf : ∀ ds' a, ds ⊆ ds' → P ds' a → Reports ds' (f a) R) : Reports ds (m >>= f) R := by
  intro s hs hflags
  obtain ⟨hflags', hsub, hp⟩ := hm s hs hflags
  obtain ⟨hflags'', hsub', hr⟩ := hf _ _ hsub hp (m s).2 rfl hflags'
  exact ⟨hflags'', fun d hd => hsub' (hsub hd), hr⟩

-- A step that tells something and reports nothing.
theorem silent {m : Compiling α} (hd : ∀ s, (m s).2.diagnostics = s.diagnostics)
    (hf : ∀ s, s.flags.hasAll .probingMode = false → (m s).2.flags.hasAll .probingMode = false) :
    Reports ds m fun ds' _ => ds' = ds := by
  rintro s rfl hflags
  exact ⟨hf s hflags, hd s ▸ List.Subset.refl _, hd s⟩

-- What is bound behind a silent step starts with the same messages.
theorem silentBind {m : Compiling α} {f : α → Compiling β}
    (hm : Reports ds m fun ds' _ => ds' = ds) (hf : ∀ a, Reports ds (f a) R) :
    Reports ds (m >>= f) R := by
  refine hm.bind fun ds' a _ he => ?_
  subst he
  exact hf a

theorem search (m : MemberSearch α) : Reports ds (search m) fun ds' _ => ds' = ds :=
  silent (fun _ => rfl) fun _ hf => hf

theorem descriptor (key : DispatchKey) :
    Reports ds (descriptor key) fun ds' _ => ds' = ds :=
  silent (fun _ => rfl) fun _ hf => hf

theorem isChecked : Reports ds isChecked fun ds' _ => ds' = ds :=
  silent (fun _ => rfl) fun _ hf => hf

theorem errorCount :
    Reports ds errorCount fun ds' count => ds' = ds ∧ count = Diagnostic.countErrors ds := by
  rintro s rfl hf
  exact ⟨hf, List.Subset.refl _, rfl, rfl⟩

theorem fault (r : Runtime) (f : BindingFault) (span : Span) :
    Reports ds (fault r f span) fun ds' _ => Explains ds' span := by
  rintro s rfl hf
  rw [fault_kept r f span hf]
  refine ⟨hf, List.subset_append_left _ _, f.toDiagnostic r span, ?_, rfl, Span.subset_rfl⟩
  simp

-- A step that reports a fault and gives up: the fault explains the result.
theorem giveUp {r : Runtime} {f : BindingFault} {span : Span} {a : α}
    (h : ∀ ds', ds ⊆ ds' → Explains ds' span → Q ds' a) :
    Reports ds (do Compiling.fault r f span; return a) Q :=
  (fault r f span).bind fun ds' _ hsub he => .pure (h ds' hsub he)

theorem inCheckedScope {checked : Bool} {body : Compiling α} (h : Reports ds body Q) :
    Reports ds (inScope (·.enterWith .checkedScope checked) body) Q := by
  intro s hs hf
  let inner : Compilation := { s with flags := (s.flags.enterWith .checkedScope checked).1 }
  have hinner : inner.flags.hasAll .probingMode = false := by
    rw [ScopeFlags.hasAll_probingMode_enterWith_checkedScope]
    exact hf
  obtain ⟨hflags, hsub, hq⟩ := h inner hs hinner
  refine ⟨?_, hsub, hq⟩
  exact (ScopeFlags.hasAll_probingMode_leave_checkedScope _ s.flags checked).trans hflags

theorem inProbingScope (m : MemberSearch α) :
    Reports ds (inScope (·.enterOn .probingMode) (Compiling.search m)) fun ds' _ => ds' = ds :=
  silent (fun _ => rfl) fun s hf =>
    (ScopeFlags.hasAll_probingMode_leave_probingMode _ s.flags).trans hf

theorem foldlM {f : α → β → Compiling α} (h : ∀ ds a b, Reports ds (f a b) fun _ _ => True)
    (bs : List β) (a : α) : Reports ds (bs.foldlM f a) fun _ _ => True := by
  induction bs generalizing ds a with
  | nil => exact .pure trivial
  | cons b bs ih =>
      rw [List.foldlM_cons]
      exact (h ds a b).bind fun ds' next _ _ => ih next

end Reports

end Compiling

end EventScript
