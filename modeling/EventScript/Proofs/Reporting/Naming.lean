import EventScript.Binding.Naming
import EventScript.Proofs.Expr.Nested
import EventScript.Proofs.Reporting.Compiling

namespace EventScript.Binding

open Compiling

variable {scope : BindingScope} {ds : List Diagnostic}

-- Nothing has been reported on the way, or something inside the span.
def Local (ds : List Diagnostic) (span : Span) (ds' : List Diagnostic) : Prop :=
  ds' = ds ∨ Explains ds' span

theorem Local.widen {ds' : List Diagnostic} {span outer : Span} (h : Local ds span ds')
    (hs : span ⊆ outer) : Local ds outer ds' :=
  h.imp id (·.widen hs)

-- If no error has been counted, what has been reported is still the same.
theorem Local.eq_or {ds' : List Diagnostic} {span : Span} (h : Local ds span ds')
    (hne : Diagnostic.countErrors ds' ≠ Diagnostic.countErrors ds) : Explains ds' span := by
  rcases h with rfl | h
  · exact absurd rfl hne
  · exact h

theorem reports_resolveName (name : String) (span : Span) (arity : Nat) :
    Reports ds (resolveName scope name span arity) fun ds' _ => Local ds span ds' := by
  unfold resolveName
  split
  · exact .pure (.inl rfl)
  · exact .pure (.inl rfl)
  · exact .giveUp fun _ _ he => .inr he

theorem reports_lookupName (ident : Ident) (arity : Nat) :
    Reports ds (lookupName scope ident arity) fun ds' _ => Local ds ident.span ds' := by
  unfold lookupName
  refine Reports.errorCount.bind fun _ before _ hbefore => ?_
  obtain ⟨rfl, -⟩ := hbefore
  refine (reports_resolveName ident.name ident.span arity).bind fun ds' found _ hl => ?_
  cases found with
  | some entity => exact .pure hl
  | none =>
      refine Reports.errorCount.bind fun _ after _ hafter => ?_
      obtain ⟨rfl, -⟩ := hafter
      split <;> exact .pure hl

theorem reports_resolvePath (path : DottedName) (arity : Nat) {outer : Span}
    (h : ∀ ident ∈ path.idents, ident.span ⊆ outer) :
    Reports ds (resolvePath scope path arity) fun ds' _ => Local ds outer ds' := by
  unfold resolvePath
  split
  · exact (reports_resolveName _ _ _).imp fun _ _ _ hl =>
      hl.widen (h _ (ConcretePath.last_mem_idents path))
  · rename_i first rest hq
    have hfirst : first ∈ path.qualifiers := hq ▸ List.mem_cons_self
    have hwithin := h _ (List.dropLast_subset _ hfirst)
    exact (reports_lookupName first 0).bind fun _ _ _ hl => .pure (hl.widen hwithin)

theorem reports_existingInstance (definition : TypeId) (arguments : List TypeId)
    (name : TypeName) :
    Reports ds (existingInstance scope definition arguments name) fun ds' found =>
      found = none → Explains ds' name.span := by
  unfold existingInstance
  split
  · exact .pure nofun
  · exact .giveUp fun _ _ he _ => he

theorem reports_markedNullable (type : TypeId) (name : TypeName) :
    Reports ds (markedNullable scope type name) fun ds' found =>
      found = none → Explains ds' name.span := by
  unfold markedNullable
  split
  · exact reports_existingInstance _ _ _
  · exact .pure nofun

-- A definition that is not found has been reported, by its own name or by one in its path.
theorem reports_resolveDefinition {name : TypeName} (h : name.Nested) :
    Reports ds (resolveDefinition scope name) fun ds' found =>
      found = none → Explains ds' name.span := by
  unfold resolveDefinition
  refine Reports.errorCount.bind fun _ before _ hbefore => ?_
  obtain ⟨rfl, rfl⟩ := hbefore
  refine (reports_resolvePath name.path name.arguments.length h.ident_subset).bind ?_
  intro ds' found _ hl
  split
  · exact .pure nofun
  · refine Reports.errorCount.bind fun _ after _ hafter => ?_
    obtain ⟨rfl, rfl⟩ := hafter
    split
    · exact .giveUp fun _ _ he _ => he
    · rename_i hne
      exact .pure fun _ => hl.eq_or hne

mutual

-- The induction is that of the search on the type name.
theorem reports_resolveType (name : TypeName) (h : name.Nested) (ds : List Diagnostic) :
    Reports ds (resolveType scope name) fun ds' found => found = none → Explains ds' name.span := by
  match name with
  | .mk path arguments nullable span =>
      rw [resolveType]
      refine (reports_resolveDefinition h).bind fun ds₁ found hsub₁ hd => ?_
      cases found with
      | none => exact .pure fun _ => hd rfl
      | some definition =>
          cases arguments with
          | nil => exact reports_markedNullable _ _
          | cons first rest =>
              cases h with
              | mk _ hspans hnested =>
                  obtain ⟨hfirst, hrest⟩ := List.forall_mem_cons.mp hnested
                  obtain ⟨hfirstSpan, hrestSpans⟩ := List.forall_mem_cons.mp hspans
                  refine (reports_resolveType first hfirst ds₁).bind fun ds₂ found _ hf => ?_
                  cases found with
                  | none => exact .pure fun _ => (hf rfl).widen hfirstSpan
                  | some firstType =>
                      refine (reports_resolveTypes rest hrest span hrestSpans ds₂).bind ?_
                      intro ds₃ found _ hr
                      cases found with
                      | none => exact .pure fun _ => hr rfl
                      | some restTypes =>
                          refine (reports_existingInstance _ _ _).bind fun ds₄ found _ he => ?_
                          cases found with
                          | none => exact .pure fun _ => he rfl
                          | some type => exact reports_markedNullable _ _

theorem reports_resolveTypes (names : List TypeName) (h : ∀ name ∈ names, name.Nested)
    (outer : Span) (hs : ∀ name ∈ names, name.span ⊆ outer) (ds : List Diagnostic) :
    Reports ds (resolveTypes scope names) fun ds' found => found = none → Explains ds' outer := by
  match names with
  | [] =>
      rw [resolveTypes]
      exact .pure nofun
  | name :: rest =>
      rw [resolveTypes]
      obtain ⟨hfirst, hrest⟩ := List.forall_mem_cons.mp h
      obtain ⟨hfirstSpan, hrestSpans⟩ := List.forall_mem_cons.mp hs
      refine (reports_resolveType name hfirst ds).bind fun ds₁ found _ hf => ?_
      cases found with
      | none => exact .pure fun _ => (hf rfl).widen hfirstSpan
      | some type =>
          refine (reports_resolveTypes rest hrest outer hrestSpans ds₁).bind ?_
          intro ds₂ found _ hr
          refine .pure fun hnone => hr ?_
          simpa using hnone

end

end EventScript.Binding
