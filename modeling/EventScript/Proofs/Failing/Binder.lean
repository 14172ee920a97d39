import EventScript.Proofs.Binding.Binder
import EventScript.Proofs.Binding.Traversal
import EventScript.Proofs.Failing.Calls

namespace EventScript.Binding

open BoundExpr Compilation Compiling

-- Failures are passed on inside a value, and methods are only taken from what has not failed.
def Denotation.PassesOn : Denotation → Prop
  | value e => e.PassesOn
  | methods group => group.Stands
  | type _ _ | entity _ _ => True

variable {scope : BindingScope}

theorem gives_toValue {denoted : Denotation} (h : denoted.PassesOn) :
    Gives (Ready scope.types) (toValue scope denoted) BoundExpr.PassesOn := by
  cases denoted with
  | value e => exact .pure h
  | _ => exact .giveUp (.failed _)

theorem gives_bindName (ident : Ident) :
    Gives (Ready scope.types) (bindName scope ident) Denotation.PassesOn := by
  unfold bindName
  split
  · exact .pure (Stands.leaf rfl).passesOn
  refine .andThen Ensures.errorCount fun before => ?_
  refine .andThen (ensures_lookupName ident 0) fun found => ?_
  split
  · exact .pure trivial
  · exact .pure trivial
  · refine .andThen Ensures.errorCount fun after => ?_
    split
    · exact .giveUp (BoundExpr.PassesOn.failed _)
    · exact .pure (BoundExpr.PassesOn.failed _)

theorem gives_missingMember (type : TypeId) (name : Ident) (span : Span) :
    Gives (Ready scope.types) (missingMember scope type name span) Denotation.PassesOn :=
  .giveUp (BoundExpr.PassesOn.failed span)

theorem gives_staticMember (type : TypeId) (name : Ident) (span : Span) :
    Gives (Ready scope.types) (staticMember scope type name span) Denotation.PassesOn := by
  unfold staticMember
  split
  · exact .pure (Stands.leaf rfl).passesOn
  · refine .andThen (ensures_methodsNamed type name.name true) fun methods => ?_
    split
    · exact gives_missingMember type name span
    · exact .pure nofun

theorem gives_instanceMember {value : BoundExpr} (hv : value.PassesOn) (name : Ident) (span : Span)
    (suppressErrors : Bool) :
    Gives (Ready scope.types) (instanceMember scope value name span suppressErrors)
      Denotation.PassesOn := by
  unfold instanceMember
  split
  · exact .pure (BoundExpr.PassesOn.failed span)
  rename_i hstands
  replace hv : value.Stands := ⟨hv, by simpa using hstands⟩
  split
  · refine (Gives.descriptor _).bind fun descriptor _ => .pure ?_
    exact (Stands.node rfl (by simpa using hv)).passesOn
  split
  · exact .pure (Stands.node rfl (by simpa using hv)).passesOn
  refine .andThen (ensures_methodsNamed value.type name.name false) fun methods => ?_
  split
  · refine (gives_extensionGroup hv name.name span).bind fun found hf => ?_
    cases found with
    | some group => exact .pure (hf group rfl)
    | none => exact gives_missingMember _ name span
  · refine .pure fun receiver hr => ?_
    rwa [← Option.some.inj hr]

theorem gives_memberOf {target : Denotation} (ht : target.PassesOn) (name : Ident) (span : Span)
    (suppressErrors : Bool) :
    Gives (Ready scope.types) (memberOf scope target name span suppressErrors)
      Denotation.PassesOn := by
  cases target with
  | entity entity entitySpan =>
      simp only [memberOf]
      split
      · exact .pure trivial
      · exact .pure trivial
      · exact .giveUp (BoundExpr.PassesOn.failed span)
  | type id typeSpan => exact gives_staticMember id name span
  | value value => exact gives_instanceMember ht name span suppressErrors
  | methods group =>
      exact (gives_toValue ht).bind fun _ _ => .pure (BoundExpr.PassesOn.failed _)

theorem stands_of_any_eq_false {arguments : List BoundExpr}
    (h : ∀ a ∈ arguments, a.PassesOn) (hany : ¬arguments.any (·.isError) = true) :
    ∀ a ∈ arguments, a.Stands := by
  rw [Bool.not_eq_true, List.any_eq_false] at hany
  exact fun a ha => ⟨h a ha, by simpa using hany a ha⟩

theorem gives_callDenoted (callee : Expr) {denoted : Denotation} (hd : denoted.PassesOn)
    {arguments : List BoundExpr} (hs : ∀ a ∈ arguments, a.PassesOn) (span : Span) :
    Gives (Ready scope.types) (callDenoted scope callee denoted arguments span)
      BoundExpr.PassesOn := by
  cases denoted with
  | methods group =>
      simp only [callDenoted]
      split
      · exact .pure (.failed span)
      · rename_i hany
        exact gives_callGroup span hd (stands_of_any_eq_false hs hany)
  | value value =>
      simp only [callDenoted]
      split
      · exact .pure (.failed span)
      rename_i hstands
      split
      · refine (Gives.descriptor _).bind fun descriptor hk => .pure ?_
        exact .call (hk ▸ rfl) ⟨hd, by simpa using hstands⟩ hs
      · exact .giveUp (.failed span)
  | _ => exact .andThen (ensures_toValue _) fun _ => .pure (.failed span)

theorem gives_bindIndex {target : BoundExpr} (ht : target.PassesOn) {arguments : List BoundExpr}
    (hs : ∀ a ∈ arguments, a.PassesOn) (span : Span) :
    Gives (Ready scope.types) (bindIndex scope target arguments span) BoundExpr.PassesOn := by
  unfold bindIndex
  split
  · exact .pure (.failed span)
  rename_i hstands
  rw [Bool.or_eq_true, not_or] at hstands
  replace ht : target.Stands := ⟨ht, by simpa using hstands.1⟩
  replace hs : ∀ a ∈ arguments, a.Stands := stands_of_any_eq_false hs hstands.2
  split
  · refine (Gives.descriptor _).bind fun descriptor _ => .pure ?_
    exact (Stands.node rfl (List.forall_mem_cons.mpr ⟨ht, hs⟩)).passesOn
  refine .andThen (ensures_methodsNamed target.type indexerName false) fun methods => ?_
  split
  · exact .giveUp (.failed span)
  · refine gives_callGroup span (fun receiver hr => ?_) hs
    rwa [← Option.some.inj hr]

theorem gives_bindCast {operand : BoundExpr} (ho : operand.PassesOn) (name : TypeName)
    (span : Span) :
    Gives (Ready scope.types) (bindCast scope operand name span) BoundExpr.PassesOn := by
  unfold bindCast
  refine .andThen (ensures_resolveType name) fun found => ?_
  cases found with
  | none => exact .pure (.failed span)
  | some target =>
      exact (gives_convert ho target .explicitCast).bind fun _ hc => .pure (hc.withSpan span)

theorem gives_bindAsType {operand : BoundExpr} (ho : operand.PassesOn) (name : TypeName)
    (span : Span) :
    Gives (Ready scope.types) (bindAsType scope operand name span) BoundExpr.PassesOn := by
  unfold bindAsType
  refine .andThen (ensures_resolveType name) fun found => ?_
  cases found with
  | none => exact .pure (.failed span)
  | some target =>
      dsimp only
      split
      · exact .pure (.failed span)
      rename_i hstands
      refine (Gives.descriptor _).bind fun descriptor _ => ?_
      refine (gives_convertBy ⟨ho, by simpa using hstands⟩ descriptor).bind fun _ hc => ?_
      exact .pure (hc.1.withSpan span)

theorem carries_passesOn (hg : TypeTable.initial.GrowsTo scope.types) :
    Carries scope (Ready scope.types) BoundExpr.PassesOn Denotation.PassesOn where
  value he := he
  inCheckedScope _ _ hm := .inCheckedScope hm
  literal _ _ := (Stands.leaf rfl).passesOn
  toValue := gives_toValue
  bindName := gives_bindName
  memberOf := gives_memberOf
  callDenoted := gives_callDenoted
  callObject hr _ hstands _ _ hs _ :=
    (Gives.descriptor _).bind fun _ hk => .pure (.call (hk ▸ rfl) ⟨hr, by simpa using hstands⟩ hs)
  bindIndex := gives_bindIndex
  bindUnary := gives_bindUnary hg
  bindBinary := gives_bindBinary hg
  bindCast := gives_bindCast
  bindAsType := gives_bindAsType

theorem gives_bindTo (hg : TypeTable.initial.GrowsTo scope.types) (e : Expr) (target : TypeId) :
    Gives (Ready scope.types) (bindTo scope e target) BoundExpr.PassesOn :=
  ((carries_passesOn hg).bind e).bind fun _ hv => gives_convert hv target .implicitCast

end EventScript.Binding
