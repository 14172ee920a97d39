import EventScript.Proofs.Binding.Traversal
import EventScript.Proofs.Settling.Calls
import EventScript.Proofs.Settling.Naming

namespace EventScript.Binding

open Compiling

-- A value is settled, and so is what methods may be called on.
def Denotation.Settled (t : TypeTable) : Denotation → Prop
  | value e => e.Settled t
  | methods group => group.Settled t
  | type _ _ | entity _ _ => True

theorem mentionsParameter_literalType {t : TypeTable} (hg : TypeTable.initial.GrowsTo t)
    (value : Literal) : t.mentionsParameter (literalType value) = false := by
  cases value with
  | int value suffix => exact TypeTable.mentionsParameter_numeric hg _
  | real value suffix => exact TypeTable.mentionsParameter_numeric hg _
  | str text => exact TypeTable.mentionsParameter_string hg
  | bool value => exact TypeTable.mentionsParameter_boolean hg
  | null => exact TypeTable.mentionsParameter_null hg

theorem propertyLeftOpen_of_property? {t : TypeTable} (hw : t.WellFormed) {owner : TypeId}
    {name : String} {isStatic : Bool} {found : FoundProperty}
    (h : property? t owner name isStatic = some found)
    (hopen : t.mentionsParameter found.type = true) :
    PropertyLeftOpen t owner found.declaring name isStatic := by
  obtain ⟨ancestor, ha, h⟩ := List.exists_of_findSome?_eq_some h
  obtain ⟨p, hp, rfl⟩ := Option.map_eq_some_iff.mp h
  have hsome := List.find?_some hp
  simp only [Bool.and_eq_true, decide_eq_true_eq] at hsome
  exact ⟨ancestor, ha, rfl, p, List.mem_of_find?_eq_some hp, hsome.1, hsome.2,
    TypeTable.staysOpen_of_seenFrom hw hopen⟩

theorem settled_dynamic {t : TypeTable} (hg : TypeTable.initial.GrowsTo t)
    {operands : List BoundExpr} (h : ∀ operand ∈ operands, operand.Settled t)
    (descriptor : Descriptor) (span : Span) :
    (BoundExpr.dynamic descriptor operands span).Settled t :=
  .of_closed h (TypeTable.mentionsParameter_object hg)

variable {scope : BindingScope}

section

variable (hscope : ClosedScope scope)

include hscope

theorem yields_toValue {denoted : Denotation} (h : denoted.Settled scope.types) :
    Yields (toValue scope denoted) (BoundExpr.Settled scope.types) := by
  cases denoted with
  | value e => exact .pure h
  | _ => exact .andThen fun _ => .pure (.failed hscope.grown _)

theorem yields_bindName (ident : Ident) :
    Yields (bindName scope ident) fun denoted => denoted.Settled scope.types := by
  unfold bindName
  split
  · rename_i type hl
    obtain ⟨before, behind, he, -⟩ := List.lookup_eq_some_iff.mp hl
    have hm : (ident.name, type) ∈ scope.parameters :=
      he ▸ List.mem_append_right _ List.mem_cons_self
    exact .pure (BoundExpr.Settled.of_closed (by simp) (hscope.parameters _ hm))
  refine .andThen fun before => .andThen fun found => ?_
  split
  · exact .pure trivial
  · exact .pure trivial
  · refine .andThen fun after => ?_
    split
    · exact .andThen fun _ => .pure (BoundExpr.Settled.failed hscope.grown _)
    · exact .pure (BoundExpr.Settled.failed hscope.grown _)

theorem yields_missingMember (type : TypeId) (name : Ident) (span : Span) :
    Yields (missingMember scope type name span) fun denoted => denoted.Settled scope.types :=
  .andThen fun _ => .pure (BoundExpr.Settled.failed hscope.grown _)

theorem yields_staticMember (type : TypeId) (name : Ident) (span : Span) :
    Yields (staticMember scope type name span) fun denoted => denoted.Settled scope.types := by
  unfold staticMember
  split
  · rename_i found hp
    refine .pure (BoundExpr.Settled.node (by simp) fun hopen => ⟨type, ?_⟩)
    exact propertyLeftOpen_of_property? hscope.wellFormed hp hopen
  · refine .andThen fun methods => ?_
    split
    · exact yields_missingMember hscope _ _ _
    · exact .pure MethodGroup.Settled.static

theorem yields_instanceMember {value : BoundExpr} (hv : value.Settled scope.types) (name : Ident)
    (span : Span) (suppressErrors : Bool) :
    Yields (instanceMember scope value name span suppressErrors) fun denoted =>
      denoted.Settled scope.types := by
  have hg := hscope.grown
  unfold instanceMember
  split
  · exact .pure (BoundExpr.Settled.failed hg _)
  split
  · exact .andThen fun descriptor => .pure (settled_dynamic hg (by simpa using hv) _ _)
  split
  · rename_i found hp
    refine .pure (BoundExpr.Settled.node (by simpa using hv) fun hopen => ⟨value, rfl, ?_⟩)
    exact propertyLeftOpen_of_property? hscope.wellFormed hp hopen
  refine (yields_methodsNamed value.type name.name false).bind fun methods hm => ?_
  split
  · refine (yields_extensionGroup hv name.name span).bind fun found hf => ?_
    cases found with
    | some group => exact .pure (hf group rfl)
    | none => exact yields_missingMember hscope _ _ _
  · exact .pure (MethodGroup.Settled.instanceOf hv hm)

theorem yields_memberOf {target : Denotation} (ht : target.Settled scope.types) (name : Ident)
    (span : Span) (suppressErrors : Bool) :
    Yields (memberOf scope target name span suppressErrors) fun denoted =>
      denoted.Settled scope.types := by
  cases target with
  | entity entity entitySpan =>
      simp only [memberOf]
      split
      · exact .pure trivial
      · exact .pure trivial
      · exact .andThen fun _ => .pure (BoundExpr.Settled.failed hscope.grown _)
  | type id typeSpan => exact yields_staticMember hscope id name span
  | value value => exact yields_instanceMember hscope ht name span suppressErrors
  | methods group =>
      exact .andThen fun _ => .pure (BoundExpr.Settled.failed hscope.grown _)

theorem yields_callDenoted (callee : Expr) {denoted : Denotation}
    (hd : denoted.Settled scope.types) {arguments : List BoundExpr}
    (hs : ∀ a ∈ arguments, a.Settled scope.types) (span : Span) :
    Yields (callDenoted scope callee denoted arguments span) (BoundExpr.Settled scope.types) := by
  have hg := hscope.grown
  cases denoted with
  | methods group =>
      simp only [callDenoted]
      split
      · exact .pure (.failed hg _)
      · exact yields_callGroup span hscope.wellFormed hg hd hs
  | value value =>
      simp only [callDenoted]
      split
      · exact .pure (.failed hg _)
      split
      · refine .andThen fun descriptor => .pure (settled_dynamic hg ?_ _ _)
        exact List.forall_mem_cons.mpr ⟨hd, hs⟩
      · exact .andThen fun _ => .pure (.failed hg _)
  | _ => exact .andThen fun _ => .pure (.failed hg _)

theorem yields_bindIndex {target : BoundExpr} (ht : target.Settled scope.types)
    {arguments : List BoundExpr} (hs : ∀ a ∈ arguments, a.Settled scope.types) (span : Span) :
    Yields (bindIndex scope target arguments span) (BoundExpr.Settled scope.types) := by
  have hg := hscope.grown
  unfold bindIndex
  split
  · exact .pure (.failed hg _)
  split
  · refine .andThen fun descriptor => .pure (settled_dynamic hg ?_ _ _)
    exact List.forall_mem_cons.mpr ⟨ht, hs⟩
  refine (yields_methodsNamed target.type indexerName false).bind fun methods hm => ?_
  split
  · exact .andThen fun _ => .pure (.failed hg _)
  · exact yields_callGroup span hscope.wellFormed hg (.instanceOf ht hm) hs

theorem yields_bindCast {operand : BoundExpr} (ho : operand.Settled scope.types)
    (name : TypeName) (span : Span) :
    Yields (bindCast scope operand name span) (BoundExpr.Settled scope.types) := by
  have hg := hscope.grown
  unfold bindCast
  refine (yields_resolveType hscope name).bind fun found hf => ?_
  cases found with
  | none => exact .pure (.failed hg _)
  | some target =>
      refine (yields_convert operand target .explicitCast).bind fun converted hc => .pure ?_
      exact (hc.settled hg ho (hf target rfl)).withSpan span

theorem yields_bindAsType {operand : BoundExpr} (ho : operand.Settled scope.types)
    (name : TypeName) (span : Span) :
    Yields (bindAsType scope operand name span) (BoundExpr.Settled scope.types) := by
  have hg := hscope.grown
  unfold bindAsType
  refine (yields_resolveType hscope name).bind fun found hf => ?_
  cases found with
  | none => exact .pure (.failed hg _)
  | some target =>
      dsimp only
      split
      · exact .pure (.failed hg _)
      refine (Yields.descriptor _).bind fun descriptor hk => ?_
      have hkey : descriptor.key = .convert target .explicitTry ∨
          descriptor.key = .convertToObject target .explicitTry := by
        split at hk
        · exact .inr hk
        · exact .inl hk
      refine (yields_convertBy operand hkey).bind fun converted hc => .pure ?_
      exact (hc.settled hg ho (hf target rfl)).withSpan span

end

theorem carries_settled (hscope : ClosedScope scope) :
    Carries scope (fun _ => True) (BoundExpr.Settled scope.types)
      (fun denoted => denoted.Settled scope.types) where
  value he := he
  inCheckedScope _ _ hm := Yields.gives (.inScope fun s => (hm s trivial).2)
  literal value _ := .of_closed (by simp) (mentionsParameter_literalType hscope.grown value)
  toValue hd := (yields_toValue hscope hd).gives
  bindName ident := (yields_bindName hscope ident).gives
  memberOf ht name span suppressErrors := (yields_memberOf hscope ht name span suppressErrors).gives
  callDenoted callee _ hd _ hs span := (yields_callDenoted hscope callee hd hs span).gives
  callObject hr _ _ _ _ hs span := Yields.gives <| .andThen fun descriptor =>
    .pure (settled_dynamic hscope.grown (List.forall_mem_cons.mpr ⟨hr, hs⟩) descriptor span)
  bindIndex ht _ hs span := (yields_bindIndex hscope ht hs span).gives
  bindUnary op _ ho span := (yields_bindUnary hscope.grown op ho span).gives
  bindBinary op _ _ hl hr span := (yields_bindBinary hscope.grown op hl hr span).gives
  bindCast ho name span := (yields_bindCast hscope ho name span).gives
  bindAsType ho name span := (yields_bindAsType hscope ho name span).gives

theorem yields_bind (hscope : ClosedScope scope) (e : Expr) :
    Yields (bind scope e) (BoundExpr.Settled scope.types) :=
  fun s => ((carries_settled hscope).bind e s trivial).2

theorem yields_bindTo (hscope : ClosedScope scope) (e : Expr) {target : TypeId}
    (ht : scope.types.mentionsParameter target = false) :
    Yields (bindTo scope e target) (BoundExpr.Settled scope.types) := by
  refine (yields_bind hscope e).bind fun value hv => ?_
  exact (yields_convert value target .implicitCast).imp fun converted hc =>
    hc.settled hscope.grown hv ht

end EventScript.Binding
