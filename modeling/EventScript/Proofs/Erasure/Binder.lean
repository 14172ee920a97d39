import EventScript.Binding.Binder
import EventScript.Proofs.Erasure.Calls

namespace EventScript

theorem Expr.eraseSpans_ne_member {e : Expr}
    (h : ∀ target name span, e = .member target name span → False) :
    ∀ target name span, e.eraseSpans = .member target name span → False := by
  cases e with
  | member target name span => exact (h _ _ _ rfl).elim
  | _ =>
      intro target name span heq
      rw [eraseSpans] at heq
      cases heq

namespace Binding

open Compiling

variable {scope : BindingScope}

def Denotation.eraseSpans : Denotation → Denotation
  | value e => value e.eraseSpans
  | type id _ => type id .none
  | entity home _ => entity home .none
  | methods group => methods group.eraseSpans

-- A value is found.
theorem erases_foundNode {op : BoundOp} {type : TypeId} {span : Span}
    {operands operands' : List BoundExpr} (h : operands' = operands.map BoundExpr.eraseSpans) :
    Erases Denotation.eraseSpans (pure (.value (.node op type span operands)))
      (pure (.value (.node op type .none operands'))) :=
  .pure (congrArg Denotation.value (by rw [h, BoundExpr.eraseSpans_node]))

theorem erases_toValue (denoted : Denotation) :
    Erases BoundExpr.eraseSpans (toValue scope denoted) (toValue scope denoted.eraseSpans) := by
  cases denoted with
  | value e => exact .pure rfl
  | type id span => exact .refuse
  | entity entity span => exact .refuse
  | methods group => exact .refuse

-- Names and members

theorem erases_bindName (ident : Ident) :
    Erases Denotation.eraseSpans (bindName scope ident) (bindName scope ident.eraseSpan) := by
  unfold bindName
  dsimp only [Ident.eraseSpan]
  cases scope.parameters.lookup ident.name with
  | some parameter => exact erases_foundNode rfl
  | none =>
    refine Erases.errorCount.bindSame fun before => ?_
    refine (erases_lookupName ident 0).bindSame fun found => ?_
    split
    · exact .pure rfl
    · exact .pure rfl
    · refine Erases.errorCount.bindSame fun after => ?_
      split
      · exact (Erases.fault _ _ _).bind fun _ => erases_foundNode rfl
      · exact erases_foundNode rfl

theorem erases_missingMember (type : TypeId) (name : Ident) (span : Span) :
    Erases Denotation.eraseSpans (missingMember scope type name span)
      (missingMember scope type name.eraseSpan .none) :=
  (Erases.fault _ _ _).bind fun _ => erases_foundNode rfl

theorem erases_methodsNamed (type : TypeId) (name : String) (isStatic : Bool) :
    Erases id (methodsNamed scope type name isStatic) (methodsNamed scope type name isStatic) :=
  (Erases.search _).bindSame fun _ => .pure rfl

theorem erases_staticMember (type : TypeId) (name : Ident) (span : Span) :
    Erases Denotation.eraseSpans (staticMember scope type name span)
      (staticMember scope type name.eraseSpan .none) := by
  unfold staticMember
  dsimp only [Ident.eraseSpan]
  split
  · exact erases_foundNode rfl
  · refine (erases_methodsNamed _ _ _).bindSame fun methods => ?_
    cases methods with
    | nil => exact erases_missingMember _ _ _
    | cons first rest => exact .pure rfl

theorem erases_instanceMember (value : BoundExpr) (name : Ident) (span : Span)
    (suppressErrors : Bool) :
    Erases Denotation.eraseSpans (instanceMember scope value name span suppressErrors)
      (instanceMember scope value.eraseSpans name.eraseSpan .none suppressErrors) := by
  unfold instanceMember
  rw [value.isError_eraseSpans, value.type_eraseSpans]
  dsimp only [Ident.eraseSpan]
  split
  · exact erases_foundNode rfl
  split
  · exact (Erases.descriptor _).bindSame fun descriptor => erases_foundNode rfl
  split
  · exact erases_foundNode rfl
  · refine (erases_methodsNamed _ _ _).bindSame fun methods => ?_
    cases methods with
    | nil =>
        refine (erases_extensionGroup _ _ _).bind fun found => ?_
        cases found with
        | some group => exact .pure rfl
        | none => exact erases_missingMember _ _ _
    | cons first rest => exact .pure rfl

theorem erases_memberOf (target : Denotation) (name : Ident) (span : Span)
    (suppressErrors : Bool) :
    Erases Denotation.eraseSpans (memberOf scope target name span suppressErrors)
      (memberOf scope target.eraseSpans name.eraseSpan .none suppressErrors) := by
  cases target with
  | value value => exact erases_instanceMember _ _ _ _
  | type id typeSpan => exact erases_staticMember _ _ _
  | entity entity entitySpan =>
      dsimp only [memberOf, Denotation.eraseSpans, Ident.eraseSpan]
      split
      · exact .pure rfl
      · exact .pure rfl
      · exact (Erases.fault _ _ _).bind fun _ => erases_foundNode rfl
  | methods group => exact (erases_toValue (.methods group)).bind fun _ => erases_foundNode rfl

theorem erases_callDenoted (callee : Expr) (denoted : Denotation) (arguments : List BoundExpr)
    (span : Span) :
    Erases BoundExpr.eraseSpans (callDenoted scope callee denoted arguments span)
      (callDenoted scope callee.eraseSpans denoted.eraseSpans
        (arguments.map BoundExpr.eraseSpans) .none) := by
  cases denoted with
  | methods group =>
      dsimp only [callDenoted, Denotation.eraseSpans]
      rw [BoundExpr.any_isError_eraseSpans]
      split
      · exact .failed
      · exact erases_callGroup _ _ _
  | value value =>
      dsimp only [callDenoted, Denotation.eraseSpans]
      rw [value.isError_eraseSpans, value.type_eraseSpans, callee.render_eraseSpans,
        callee.span_eraseSpans, List.length_map]
      split
      · exact .failed
      split
      · exact (Erases.descriptor _).bindSame fun descriptor => .node rfl
      · exact .refuse
  | type id typeSpan => exact (erases_toValue (.type id typeSpan)).bind fun _ => .failed
  | entity entity entitySpan =>
      exact (erases_toValue (.entity entity entitySpan)).bind fun _ => .failed

theorem erases_bindIndex (target : BoundExpr) (arguments : List BoundExpr) (span : Span) :
    Erases BoundExpr.eraseSpans (bindIndex scope target arguments span)
      (bindIndex scope target.eraseSpans (arguments.map BoundExpr.eraseSpans) .none) := by
  unfold bindIndex
  rw [target.isError_eraseSpans, target.type_eraseSpans, BoundExpr.any_isError_eraseSpans,
    List.length_map]
  split
  · exact .failed
  split
  · exact (Erases.descriptor _).bindSame fun descriptor => .node rfl
  · refine (erases_methodsNamed _ _ _).bindSame fun methods => ?_
    cases methods with
    | nil => exact .refuse
    | cons first rest =>
        exact erases_callGroup ⟨indexerName, .instanceOf target, first :: rest, span⟩ _ _

-- What has been converted is given the place of the whole cast.
theorem erases_placed {m m' : Compiling BoundExpr} (h : Erases BoundExpr.eraseSpans m m')
    (span : Span) :
    Erases BoundExpr.eraseSpans (do return (← m).withSpan span)
      (do return (← m').withSpan .none) :=
  h.bind fun e => .pure (e.eraseSpans_withSpan span).symm

theorem erases_bindCast (operand : BoundExpr) (name : TypeName) (span : Span) :
    Erases BoundExpr.eraseSpans (bindCast scope operand name span)
      (bindCast scope operand.eraseSpans name.eraseSpans .none) := by
  refine (erases_resolveType name).bindSame fun found => ?_
  cases found with
  | none => exact .failed
  | some target => exact erases_placed (erases_convert _ _ _) span

theorem erases_bindAsType (operand : BoundExpr) (name : TypeName) (span : Span) :
    Erases BoundExpr.eraseSpans (bindAsType scope operand name span)
      (bindAsType scope operand.eraseSpans name.eraseSpans .none) := by
  refine (erases_resolveType name).bindSame fun found => ?_
  cases found with
  | none => exact .failed
  | some target =>
      dsimp only
      rw [operand.isError_eraseSpans]
      split
      · exact .failed
      · exact (Erases.descriptor _).bindSame fun descriptor =>
          erases_placed (erases_convertBy _ _) span

-- Expressions

-- What is bound next uses the value of what has been denoted.
theorem erases_asValue {α β : Type} {keep : α → β} {m m' : Compiling Denotation}
    {f : BoundExpr → Compiling α} {f' : BoundExpr → Compiling β}
    (hm : Erases Denotation.eraseSpans m m') (hf : ∀ e, Erases keep (f e) (f' e.eraseSpans)) :
    Erases keep (do let denoted ← m; let e ← toValue scope denoted; f e)
      (do let denoted ← m'; let e ← toValue scope denoted; f' e) :=
  hm.bind fun denoted => (erases_toValue denoted).bind hf

theorem erases_value {m m' : Compiling BoundExpr} (hm : Erases BoundExpr.eraseSpans m m') :
    Erases Denotation.eraseSpans (do return Denotation.value (← m))
      (do return Denotation.value (← m')) :=
  hm.bind fun _ => .pure rfl

-- A call whose callee is a member, for all targets but objects.
theorem erases_callMember (target : Expr) (denoted : Denotation) (name : Ident)
    (calleeSpan : Span) (arguments : List BoundExpr) (span : Span) :
    Erases Denotation.eraseSpans
      (do
        let denoted ← memberOf scope denoted name calleeSpan false
        let callee := Expr.member target name calleeSpan
        return Denotation.value (← callDenoted scope callee denoted arguments span))
      (do
        let denoted ← memberOf scope denoted.eraseSpans name.eraseSpan .none false
        let callee := Expr.member target.eraseSpans name.eraseSpan .none
        return Denotation.value
          (← callDenoted scope callee denoted (arguments.map BoundExpr.eraseSpans) .none)) := by
  refine (erases_memberOf _ _ _ _).bind fun denoted => erases_value ?_
  have hcallee : Erases BoundExpr.eraseSpans (callDenoted scope _ denoted arguments span) _ :=
    erases_callDenoted (.member target name calleeSpan) denoted arguments span
  rwa [Expr.eraseSpans] at hcallee

-- A call of a member, where the target and the arguments have been bound so.
theorem erases_callOfMember {target : Expr} {arguments : List Expr}
    (ht : Erases Denotation.eraseSpans (denote scope target) (denote scope target.eraseSpans))
    (ha : Erases (List.map BoundExpr.eraseSpans) (bindAll scope arguments)
      (bindAll scope (arguments.map Expr.eraseSpans))) (name : Ident) (calleeSpan span : Span) :
    Erases Denotation.eraseSpans
      (denote scope (.call (.member target name calleeSpan) arguments span))
      (denote scope (.call (.member target.eraseSpans name.eraseSpan .none)
        (arguments.map Expr.eraseSpans) .none)) := by
  rw [denote, denote]
  refine ha.bind fun arguments => ht.bind fun denoted => ?_
  cases denoted with
  | value receiver =>
      dsimp only [ Denotation.eraseSpans]
      rw [receiver.type_eraseSpans, receiver.isError_eraseSpans, List.length_map]
      split
      · exact (Erases.descriptor _).bindSame fun descriptor => erases_foundNode rfl
      · exact erases_callMember _ (.value receiver) _ _ _ _
  | type id typeSpan => exact erases_callMember _ (.type id typeSpan) _ _ _ _
  | entity entity entitySpan => exact erases_callMember _ (.entity entity entitySpan) _ _ _ _
  | methods group => exact erases_callMember _ (.methods group) _ _ _ _

mutual

-- The induction is that of the binder on the expression. What is decided is decided by the form, so
-- the run on the form without places decides the same at each of its steps.
theorem erases_denote (e : Expr) :
    Erases Denotation.eraseSpans (denote scope e) (denote scope e.eraseSpans) := by
  match e with
  | .literal value span =>
      rw [Expr.eraseSpans, denote, denote]
      exact erases_foundNode rfl
  | .name ident span =>
      rw [Expr.eraseSpans, denote, denote]
      exact erases_bindName ident
  | .member target name span =>
      rw [Expr.eraseSpans, denote, denote]
      exact (erases_denote target).bind fun _ => erases_memberOf _ _ _ _
  | .index target arguments span =>
      rw [Expr.eraseSpans, denote, denote]
      refine erases_asValue (erases_denote target) fun target => ?_
      refine (erases_bindAll arguments).bind fun arguments => ?_
      exact erases_value (erases_bindIndex _ _ _)
  | .unary op operand span =>
      rw [Expr.eraseSpans, denote, denote]
      refine erases_asValue (erases_denote operand) fun operand => ?_
      exact erases_value (erases_bindUnary _ _ _)
  | .binary op left right span =>
      rw [Expr.eraseSpans, denote, denote]
      refine erases_asValue (erases_denote left) fun left => ?_
      refine erases_asValue (erases_denote right) fun right => ?_
      exact erases_value (erases_bindBinary _ _ _ _)
  | .cast name operand span =>
      rw [Expr.eraseSpans, denote, denote]
      refine erases_asValue (erases_denote operand) fun operand => ?_
      exact erases_value (erases_bindCast _ _ _)
  | .guarded on operand span =>
      rw [Expr.eraseSpans, denote, denote]
      exact (erases_denote operand).inScope
  | .asType operand name span =>
      have hplain (hm : ∀ target member memberSpan,
          operand = .member target member memberSpan → False) :
          Erases Denotation.eraseSpans (denote scope (.asType operand name span))
            (denote scope (.asType operand.eraseSpans name.eraseSpans .none)) := by
        rw [denote_asType scope hm, denote_asType scope (Expr.eraseSpans_ne_member hm)]
        refine erases_asValue (erases_denote operand) fun operand => ?_
        exact erases_value (erases_bindAsType _ _ _)
      rw [Expr.eraseSpans]
      cases operand with
      | member target member memberSpan =>
          rw [Expr.eraseSpans, denote, denote]
          refine (erases_denote target).bind fun denoted => ?_
          refine erases_asValue (erases_memberOf _ _ _ _) fun operand => ?_
          exact erases_value (erases_bindAsType _ _ _)
      | _ => exact hplain fun _ _ _ => nofun
  | .call callee arguments span =>
      have hplain (hm : ∀ target name calleeSpan,
          callee = .member target name calleeSpan → False) :
          Erases Denotation.eraseSpans (denote scope (.call callee arguments span))
            (denote scope (.call callee.eraseSpans (arguments.map Expr.eraseSpans) .none)) := by
        rw [denote_call scope hm, denote_call scope (Expr.eraseSpans_ne_member hm)]
        refine (erases_bindAll arguments).bind fun arguments => ?_
        refine (erases_denote callee).bind fun denoted => ?_
        exact erases_value (erases_callDenoted _ _ _ _)
      rw [Expr.eraseSpans]
      cases callee with
      | member target name calleeSpan =>
          rw [Expr.eraseSpans]
          exact erases_callOfMember (erases_denote target) (erases_bindAll arguments) _ _ _
      | _ => exact hplain fun _ _ _ => nofun

theorem erases_bindAll (es : List Expr) :
    Erases (List.map BoundExpr.eraseSpans) (bindAll scope es)
      (bindAll scope (es.map Expr.eraseSpans)) := by
  match es with
  | [] =>
      rw [List.map_nil, bindAll]
      exact .pure rfl
  | e :: rest =>
      rw [List.map_cons, bindAll, bindAll]
      refine erases_asValue (erases_denote e) fun first => ?_
      exact (erases_bindAll rest).bind fun rest => .pure rfl

end

theorem erases_bind (e : Expr) :
    Erases BoundExpr.eraseSpans (bind scope e) (bind scope e.eraseSpans) :=
  (erases_denote e).bind erases_toValue

theorem erases_bindTo (e : Expr) (target : TypeId) :
    Erases BoundExpr.eraseSpans (bindTo scope e target) (bindTo scope e.eraseSpans target) :=
  (erases_bind e).bind fun _ => erases_convert _ _ _

end Binding

end EventScript
