import EventScript.Proofs.Binding.Calls
import EventScript.Proofs.Binding.Naming
import EventScript.Proofs.Binding.Operators

namespace EventScript.Binding

open Compiling

-- Values are typed, and so are the methods that may still be called.
def Denotation.Typed (t : TypeTable) (parameters : List (String × TypeId)) : Denotation → Prop
  | value e => e.WellTyped t parameters
  | methods group => group.Typed t parameters
  | type _ _ | entity _ _ => True

theorem propertyTyped_of_property? {t : TypeTable} {owner : TypeId} {name : String}
    {isStatic : Bool} {found : FoundProperty} (h : property? t owner name isStatic = some found) :
    PropertyTyped t owner found.declaring name isStatic found.type := by
  obtain ⟨ancestor, ha, h⟩ := List.exists_of_findSome?_eq_some h
  obtain ⟨p, hp, rfl⟩ := Option.map_eq_some_iff.mp h
  have hsome := List.find?_some hp
  simp only [Bool.and_eq_true, decide_eq_true_eq] at hsome
  exact ⟨ancestor, ha, rfl, p, List.mem_of_find?_eq_some hp, hsome.1, hsome.2, rfl⟩

-- An operation that is left to the run time is typed if its target is an object and its descriptor
-- counts the arguments.
theorem wellTyped_dynamic {t : TypeTable} {parameters : List (String × TypeId)}
    {descriptor : Descriptor} {target : BoundExpr} {arguments : List BoundExpr} (span : Span)
    (ht : target.type = .object) (hk : IsDynamic descriptor.key arguments.length)
    (hw : target.WellTyped t parameters) (hs : ∀ e ∈ arguments, e.WellTyped t parameters) :
    (BoundExpr.dynamic descriptor (target :: arguments) span).WellTyped t parameters :=
  BoundExpr.wellTyped_node.mpr
    ⟨⟨rfl, target, arguments, rfl, ht, hk⟩, List.forall_mem_cons.mpr ⟨hw, hs⟩⟩

variable {scope : BindingScope} {count : Nat}

theorem ensures_toValue (denoted : Denotation) :
    Ensures scope.types count (toValue scope denoted) fun e =>
      denoted.Typed scope.types scope.parameters → e.WellTyped scope.types scope.parameters := by
  cases denoted with
  | value e => exact .pure id
  | _ => exact Ensures.giveUp _ _ _ _

theorem ensures_bindName (ident : Ident) :
    Ensures scope.types count (bindName scope ident) fun denoted =>
      denoted.Typed scope.types scope.parameters := by
  unfold bindName
  split
  · rename_i type hl
    exact .pure (BoundExpr.wellTyped_node.mpr ⟨⟨rfl, hl⟩, by simp⟩)
  refine Ensures.errorCount.bind fun before => ?_
  refine (ensures_lookupName ident 0).bind fun found => ?_
  split
  · exact .pure fun _ _ => trivial
  · exact .pure fun _ _ => trivial
  · refine Ensures.errorCount.bind fun after => ?_
    split
    · exact Ensures.giveUp _ _ _ _
    · rename_i hne
      exact .pure fun ha _ hb => absurd (ha.trans hb.symm) hne

theorem ensures_missingMember (type : TypeId) (name : Ident) (span : Span)
    {Q : Denotation → Prop} :
    Ensures scope.types count (missingMember scope type name span) Q :=
  Ensures.giveUp _ _ _ _

theorem ensures_staticMember (type : TypeId) (name : Ident) (span : Span) :
    Ensures scope.types count (staticMember scope type name span) fun denoted =>
      denoted.Typed scope.types scope.parameters := by
  unfold staticMember
  split
  · rename_i found hp
    refine .pure (BoundExpr.wellTyped_node.mpr ⟨⟨rfl, type, ?_⟩, by simp⟩)
    exact propertyTyped_of_property? hp
  · refine (ensures_methodsNamed type name.name true).bind fun methods => ?_
    split
    · exact ensures_missingMember _ _ _
    · exact .pure id

theorem ensures_instanceMember (value : BoundExpr) (name : Ident) (span : Span)
    (suppressErrors : Bool) :
    Ensures scope.types count (instanceMember scope value name span suppressErrors) fun denoted =>
      value.WellTyped scope.types scope.parameters →
      denoted.Typed scope.types scope.parameters := by
  unfold instanceMember
  split
  · rename_i herr
    exact .pure fun hv => by simp [hv.isError_eq] at herr
  split
  · rename_i hobject
    refine (Ensures.descriptor _).bind fun descriptor => .pure fun hk hv => ?_
    exact wellTyped_dynamic span hobject (hk ▸ rfl) hv (by simp)
  split
  · rename_i found hp
    refine .pure fun hv => BoundExpr.wellTyped_node.mpr ⟨⟨value, rfl, ?_⟩, by simpa using hv⟩
    exact propertyTyped_of_property? hp
  refine (ensures_methodsNamed value.type name.name false).bind fun methods => ?_
  split
  · refine (ensures_extensionGroup value name.name span).bind fun found => ?_
    cases found with
    | none => exact ensures_missingMember _ _ _
    | some group => exact .pure fun h _ hv => h hv group rfl
  · exact .pure fun hm hv => ⟨hv, hm⟩

theorem ensures_memberOf (target : Denotation) (name : Ident) (span : Span)
    (suppressErrors : Bool) :
    Ensures scope.types count (memberOf scope target name span suppressErrors) fun denoted =>
      target.Typed scope.types scope.parameters →
      denoted.Typed scope.types scope.parameters := by
  cases target with
  | entity entity entitySpan =>
      simp only [memberOf]
      split
      · exact .pure fun _ => trivial
      · exact .pure fun _ => trivial
      · exact Ensures.giveUp _ _ _ _
  | type id typeSpan => exact (ensures_staticMember id name span).imp fun _ h _ => h
  | value value => exact ensures_instanceMember value name span suppressErrors
  | methods group => exact (Ensures.fault _ _ _).bind fun _ => .pure fun h => h.elim

theorem not_any_isError {t : TypeTable} {parameters : List (String × TypeId)}
    {arguments : List BoundExpr} (h : ∀ e ∈ arguments, e.WellTyped t parameters) :
    arguments.any (·.isError) = false := by
  rw [List.any_eq_false]
  intro e he
  simp [(h e he).isError_eq]

theorem ensures_callDenoted (callee : Expr) (denoted : Denotation) (arguments : List BoundExpr)
    (span : Span) :
    Ensures scope.types count (callDenoted scope callee denoted arguments span) fun e =>
      denoted.Typed scope.types scope.parameters →
      (∀ argument ∈ arguments, argument.WellTyped scope.types scope.parameters) →
      e.WellTyped scope.types scope.parameters := by
  cases denoted with
  | methods group =>
      simp only [callDenoted]
      split
      · rename_i herr
        exact .pure fun _ hs => by simp [not_any_isError hs] at herr
      · exact ensures_callGroup group arguments span
  | value value =>
      simp only [callDenoted]
      split
      · rename_i herr
        exact .pure fun hv _ => by simp [BoundExpr.WellTyped.isError_eq hv] at herr
      split
      · rename_i hobject
        refine (Ensures.descriptor _).bind fun descriptor => .pure fun hk hv hs => ?_
        exact wellTyped_dynamic span hobject (hk ▸ rfl) hv hs
      · exact Ensures.giveUp _ _ _ _
  | type id typeSpan => exact (Ensures.fault _ _ _).bind fun _ => .pure fun h => h.elim
  | entity entity entitySpan =>
      exact (Ensures.fault _ _ _).bind fun _ => .pure fun h => h.elim

-- A call whose callee is a member, for all targets but objects.
theorem ensures_callMember (callee : Expr) (target : Denotation) (name : Ident)
    (calleeSpan : Span) (arguments : List BoundExpr) (span : Span) :
    Ensures scope.types count (do
      let denoted ← memberOf scope target name calleeSpan false
      return Denotation.value (← callDenoted scope callee denoted arguments span)) fun denoted =>
      target.Typed scope.types scope.parameters →
      (∀ argument ∈ arguments, argument.WellTyped scope.types scope.parameters) →
      denoted.Typed scope.types scope.parameters := by
  refine (ensures_memberOf target name calleeSpan false).bind fun member => ?_
  refine (ensures_callDenoted callee member arguments span).bind fun result => .pure ?_
  exact fun h hm ht hs => h (hm ht) hs

theorem ensures_bindIndex (target : BoundExpr) (arguments : List BoundExpr) (span : Span) :
    Ensures scope.types count (bindIndex scope target arguments span) fun e =>
      target.WellTyped scope.types scope.parameters →
      (∀ argument ∈ arguments, argument.WellTyped scope.types scope.parameters) →
      e.WellTyped scope.types scope.parameters := by
  unfold bindIndex
  split
  · rename_i herr
    exact .pure fun ht hs => by simp [ht.isError_eq, not_any_isError hs] at herr
  split
  · rename_i hobject
    refine (Ensures.descriptor _).bind fun descriptor => .pure fun hk ht hs => ?_
    exact wellTyped_dynamic span hobject (hk ▸ rfl) ht hs
  refine (ensures_methodsNamed target.type indexerName false).bind fun methods => ?_
  split
  · exact Ensures.giveUp _ _ _ _
  · refine (ensures_callGroup _ arguments span).imp fun e h hm ht => ?_
    exact h ⟨ht, hm⟩

theorem ensures_bindCast (operand : BoundExpr) (name : TypeName) (span : Span) :
    Ensures scope.types count (bindCast scope operand name span) fun e =>
      operand.WellTyped scope.types scope.parameters →
      e.WellTyped scope.types scope.parameters := by
  unfold bindCast
  refine (ensures_resolveType name).bind fun found => ?_
  cases found with
  | none => exact .pure fun h => by cases h
  | some target =>
      refine (ensures_convert operand target rfl).bind fun converted => .pure fun hc _ ho => ?_
      exact (hc ho).wellTyped.withSpan span

theorem ensures_bindAsType (operand : BoundExpr) (name : TypeName) (span : Span) :
    Ensures scope.types count (bindAsType scope operand name span) fun e =>
      operand.WellTyped scope.types scope.parameters →
      e.WellTyped scope.types scope.parameters := by
  unfold bindAsType
  refine (ensures_resolveType name).bind fun found => ?_
  cases found with
  | none => exact .pure fun h => by cases h
  | some target =>
      dsimp only
      split
      · rename_i herr
        exact .pure fun _ ho => by simp [ho.isError_eq] at herr
      refine (Ensures.descriptor _).bind fun descriptor => ?_
      refine (ensures_convertBy operand descriptor target .explicitTry nofun).bind
        fun converted => .pure fun hc hk _ ho => (hc ho ?_).wellTyped.withSpan span
      split at hk
      · rename_i hv
        exact .inr ⟨hk, rfl, hv⟩
      · exact .inl hk

mutual

-- The induction is that of the binder on the expression, with lists of expressions beside it.
theorem ensures_denote (e : Expr) :
    Ensures scope.types count (denote scope e) fun denoted =>
      denoted.Typed scope.types scope.parameters := by
  match e with
  | .literal value span =>
      rw [denote]
      exact .pure (BoundExpr.wellTyped_node.mpr ⟨⟨rfl, rfl⟩, by simp⟩)
  | .name ident span =>
      rw [denote]
      exact ensures_bindName ident
  | .member target name span =>
      rw [denote]
      refine (ensures_denote target).bind fun denoted => ?_
      exact (ensures_memberOf denoted name span false).imp fun _ h => h
  | .index target arguments span =>
      rw [denote]
      refine (ensures_denote target).bind fun denoted => ?_
      refine (ensures_toValue denoted).bind fun value => ?_
      refine (ensures_bindAll arguments).bind fun values => ?_
      refine (ensures_bindIndex value values span).bind fun result => .pure ?_
      exact fun h hs hv hd => h (hv hd) hs
  | .unary op operand span =>
      rw [denote]
      refine (ensures_denote operand).bind fun denoted => ?_
      refine (ensures_toValue denoted).bind fun value => ?_
      refine (ensures_bindUnary op value span).bind fun result => .pure ?_
      exact fun h hv hd => h (hv hd)
  | .binary op left right span =>
      rw [denote]
      refine (ensures_denote left).bind fun leftDenoted => ?_
      refine (ensures_toValue leftDenoted).bind fun leftValue => ?_
      refine (ensures_denote right).bind fun rightDenoted => ?_
      refine (ensures_toValue rightDenoted).bind fun rightValue => ?_
      refine (ensures_bindBinary op leftValue rightValue span).bind fun result => .pure ?_
      exact fun h hr hrd hl hld => h (hl hld) (hr hrd)
  | .cast name operand span =>
      rw [denote]
      refine (ensures_denote operand).bind fun denoted => ?_
      refine (ensures_toValue denoted).bind fun value => ?_
      refine (ensures_bindCast value name span).bind fun result => .pure ?_
      exact fun h hv hd => h (hv hd)
  | .guarded checked operand span =>
      rw [denote]
      exact (ensures_denote operand).inCheckedScope
  | .asType operand name span =>
      cases operand with
      | member target member memberSpan =>
          rw [denote]
          refine (ensures_denote target).bind fun denoted => ?_
          refine (ensures_memberOf denoted member memberSpan true).bind fun inner => ?_
          refine (ensures_toValue inner).bind fun value => ?_
          refine (ensures_bindAsType value name span).bind fun result => .pure ?_
          exact fun h hv hi hd => h (hv (hi hd))
      | _ =>
          rw [denote]
          · refine (ensures_denote _).bind fun denoted => ?_
            refine (ensures_toValue denoted).bind fun value => ?_
            refine (ensures_bindAsType value name span).bind fun result => .pure ?_
            exact fun h hv hd => h (hv hd)
          · nofun
  | .call callee arguments span =>
      rw [denote]
      refine (ensures_bindAll arguments).bind fun values => ?_
      cases callee with
      | member target name calleeSpan =>
          refine (ensures_denote target).bind fun denoted => ?_
          cases denoted with
          | value receiver =>
              dsimp only
              split
              · rename_i hobject
                refine (Ensures.descriptor _).bind fun descriptor => .pure fun hk hv hs => ?_
                exact wellTyped_dynamic span hobject.1 (hk ▸ rfl) hv hs
              · exact ensures_callMember _ _ _ _ _ _
          | _ => exact ensures_callMember _ _ _ _ _ _
      | _ =>
          dsimp only
          refine (ensures_denote _).bind fun denoted => ?_
          refine (ensures_callDenoted _ denoted values span).bind fun result => .pure ?_
          exact fun h hd hs => h hd hs

theorem ensures_bindAll (es : List Expr) :
    Ensures scope.types count (bindAll scope es) fun values =>
      ∀ value ∈ values, value.WellTyped scope.types scope.parameters := by
  match es with
  | [] =>
      rw [bindAll]
      exact .pure (by simp)
  | e :: rest =>
      rw [bindAll]
      refine (ensures_denote e).bind fun denoted => ?_
      refine (ensures_toValue denoted).bind fun value => ?_
      refine (ensures_bindAll rest).bind fun values => .pure fun hs hv hd => ?_
      exact List.forall_mem_cons.mpr ⟨hv hd, hs⟩

end

theorem ensures_bind (e : Expr) :
    Ensures scope.types count (bind scope e)
      (BoundExpr.WellTyped scope.types scope.parameters) :=
  (ensures_denote e).bind fun denoted => ensures_toValue denoted

theorem ensures_bindTo (e : Expr) (target : TypeId) :
    Ensures scope.types count (bindTo scope e target)
      (BoundExpr.WellTyped scope.types scope.parameters) := by
  refine (ensures_bind e).bind fun value => ?_
  exact (ensures_convert value target rfl).imp fun converted hc hv => (hc hv).wellTyped

end EventScript.Binding
