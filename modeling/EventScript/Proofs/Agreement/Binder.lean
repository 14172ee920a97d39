import EventScript.Binding.Binder
import EventScript.Proofs.Agreement.Calls

namespace EventScript.Binding

open Compiling TypeTable

variable {c : Comparison} {t t' : TypeTable} {scope : BindingScope} {r' : Runtime}

-- Operators

theorem numericOperand?_eq (h : t.SameTypes t') (type : TypeId) :
    numericOperand? t' type = numericOperand? t type := by
  simp only [numericOperand?, h.numericKind?_eq, h.extensibleUnderlying?_eq]

theorem isComparable_eq (h : t.SameTypes t') (source target : TypeId) :
    isComparable t' source target = isComparable t source target := by
  simp only [isComparable, h.isReferenceType_eq, h.nullableUnderlying?_eq, h.isAssignable_eq]

theorem equality?_eq (h : t.SameTypes t') (left right : TypeId) :
    equality? t' left right = equality? t left right := by
  rw [equality?, equality?, isComparable_eq h, isComparable_eq h]

section

variable (h : scope.runtime.Agrees r')
include h

theorem matches_unaryType (op : UnaryOperator) (operand : TypeId) :
    Matches c scope.types r'.types (unaryType scope op operand)
      (unaryType (scope.on r') op operand) Eq := by
  have hnumeric : Matches c scope.types r'.types
      (pure (((numericOperand? scope.types operand).bind (signedResult? op)).map TypeId.numeric))
      (pure (((numericOperand? (scope.on r').types operand).bind (signedResult? op)).map
        TypeId.numeric)) Eq := by
    rw [scope.types_on, numericOperand?_eq h.scopeTypes.toSameTypes]
    exact .pure rfl
  cases op with
  | not => exact (matches_convertsImplicitly h _ _).bindSame fun converts => .pure rfl
  | negate => exact hnumeric
  | plus => exact hnumeric

theorem matches_binarySignature (op : BinaryOperator) (left right : TypeId) :
    Matches c scope.types r'.types (binarySignature scope op left right)
      (binarySignature (scope.on r') op left right) Eq := by
  unfold binarySignature
  rw [scope.types_on, numericOperand?_eq h.scopeTypes.toSameTypes,
    numericOperand?_eq h.scopeTypes.toSameTypes, equality?_eq h.scopeTypes.toSameTypes]
  split
  · exact .pure rfl
  split
  · refine (matches_convertsImplicitly h _ _).bindSame fun fits => ?_
    split
    · refine (matches_convertsImplicitly h _ _).bindSame fun fits => ?_
      split <;> exact .pure rfl
    · exact .pure rfl
  split
  · exact .pure rfl
  split <;> exact .pure rfl

theorem matches_bindUnary (op : UnaryOperator) {operand operand' : BoundExpr}
    (he : operand.Alike c operand') (span : Span) :
    Matches c scope.types r'.types (bindUnary scope op operand span)
      (bindUnary (scope.on r') op operand' span) (BoundExpr.Alike c) := by
  unfold bindUnary
  rw [he.isError_eq, he.type_eq]
  split
  · exact .pure (.failed c span)
  refine (Matches.descriptor _).bind fun d d' hd => ?_
  refine Matches.isChecked.bindSame fun checked => ?_
  have hop : (BoundOp.unary op d checked).mapDescriptor c.view =
      (BoundOp.unary op d' checked).mapDescriptor c.view := by
    rw [BoundOp.mapDescriptor, BoundOp.mapDescriptor, hd]
  split
  · exact .pure (.node hop _ _ (.cons he .nil))
  · refine (matches_unaryType h op operand.type).bindSame fun type => ?_
    cases type with
    | none => exact h.giveUp rfl (.failed c span)
    | some type =>
        exact (matches_convert h he _ _).bind fun _ _ hc => .pure (.node hop _ _ (.cons hc .nil))

theorem matches_bindBinary (op : BinaryOperator) {left left' right right' : BoundExpr}
    (hl : left.Alike c left') (hr : right.Alike c right') (span : Span) :
    Matches c scope.types r'.types (bindBinary scope op left right span)
      (bindBinary (scope.on r') op left' right' span) (BoundExpr.Alike c) := by
  unfold bindBinary
  rw [hl.isError_eq, hl.type_eq, hr.isError_eq, hr.type_eq]
  split
  · exact .pure (.failed c span)
  refine (matches_binarySignature h op left.type right.type).bindSame fun signature => ?_
  cases signature with
  | none => exact h.giveUp rfl (.failed c span)
  | some signature =>
      refine (matches_convert h hl _ _).bind fun first first' hfirst => ?_
      refine (matches_convert h hr _ _).bind fun second second' hsecond => ?_
      refine (Matches.descriptor _).bind fun d d' hd => ?_
      refine Matches.isChecked.bindSame fun checked => .pure ?_
      have hop : (BoundOp.binary op d checked).mapDescriptor c.view =
          (BoundOp.binary op d' checked).mapDescriptor c.view := by
        rw [BoundOp.mapDescriptor, BoundOp.mapDescriptor, hd]
      exact .node hop _ _ (.cons hfirst (.cons hsecond .nil))

end

-- What expressions stand for

-- What expressions stand for in two runs, with the bound trees compared.
inductive DenotedAlike (c : Comparison) (t t' : TypeTable) : Denotation → Denotation → Prop
  | value {e e' : BoundExpr} : e.Alike c e' → DenotedAlike c t t' (.value e) (.value e')
  | type (id : TypeId) (span : Span) : DenotedAlike c t t' (.type id span) (.type id span)
  | entity (entity : Entity) (span : Span) :
      DenotedAlike c t t' (.entity entity span) (.entity entity span)
  | methods {group group' : MethodGroup} : group.Alike c t t' group' →
      DenotedAlike c t t' (.methods group) (.methods group')

theorem DenotedAlike.failed (c : Comparison) (t t' : TypeTable) (span : Span) :
    DenotedAlike c t t' (.value (.failed span)) (.value (.failed span)) :=
  .value (.failed c span)

section

variable (h : scope.runtime.Agrees r')
include h

theorem matches_toValue {d d' : Denotation} (hd : DenotedAlike c scope.types r'.types d d') :
    Matches c scope.types r'.types (toValue scope d) (toValue (scope.on r') d')
      (BoundExpr.Alike c) := by
  cases hd with
  | value he => exact .pure he
  | type id span => exact h.giveUp rfl (.failed c span)
  | entity entity span => exact h.giveUp rfl (.failed c span)
  | @methods group group' hg =>
      rw [toValue, toValue, hg.name_eq, hg.span_eq]
      exact h.giveUp rfl (.failed c group.span)

theorem matches_bindName (ident : Ident) :
    Matches c scope.types r'.types (bindName scope ident) (bindName (scope.on r') ident)
      (DenotedAlike c scope.types r'.types) := by
  unfold bindName
  rw [scope.parameters_on]
  cases scope.parameters.lookup ident.name with
  | some type => exact .pure (.value rfl)
  | none =>
      refine Matches.errorCount.bindSame fun before => ?_
      refine (matches_lookupName h ident 0).bindSame fun found => ?_
      cases found with
      | some entity => cases entity <;> exact .pure (by constructor)
      | none =>
          refine Matches.errorCount.bindSame fun after => ?_
          dsimp only
          split
          · exact h.giveUp rfl (.failed c _ _ ident.span)
          · exact .pure (.failed c _ _ ident.span)

theorem matches_missingMember (type : TypeId) (name : Ident) (span : Span) :
    Matches c scope.types r'.types (missingMember scope type name span)
      (missingMember (scope.on r') type name span) (DenotedAlike c scope.types r'.types) :=
  h.giveUp rfl (.failed c _ _ span)

theorem matches_staticMember (type : TypeId) (name : Ident) (span : Span) :
    Matches c scope.types r'.types (staticMember scope type name span)
      (staticMember (scope.on r') type name span) (DenotedAlike c scope.types r'.types) := by
  unfold staticMember
  rw [scope.types_on, property?_eq h.scopeTypes.toSameTypes]
  cases property? scope.types type name.name true with
  | some found => exact .pure (.value rfl)
  | none =>
      refine (matches_methodsNamed h _ _ _).bind fun ids ids' hids => ?_
      obtain rfl := hids.1
      split
      · exact matches_missingMember h _ _ _
      · exact .pure (.methods
          ⟨rfl, .static, rfl, rfl, h.scopeTypes.method_eq_of_shared hids⟩)

theorem matches_instanceMember {value value' : BoundExpr} (he : value.Alike c value')
    (name : Ident) (span : Span) (suppressErrors : Bool) :
    Matches c scope.types r'.types (instanceMember scope value name span suppressErrors)
      (instanceMember (scope.on r') value' name span suppressErrors)
      (DenotedAlike c scope.types r'.types) := by
  unfold instanceMember
  rw [he.isError_eq, he.type_eq, scope.types_on, property?_eq h.scopeTypes.toSameTypes]
  split
  · exact .pure (.failed c _ _ span)
  split
  · exact (Matches.descriptor _).bind fun d d' hd =>
      .pure (.value (.dynamic hd span (.cons he .nil)))
  cases property? scope.types value.type name.name false with
  | some found => exact .pure (.value (.node rfl _ _ (.cons he .nil)))
  | none =>
      refine (matches_methodsNamed h _ _ _).bind fun ids ids' hids => ?_
      obtain rfl := hids.1
      split
      · refine (matches_extensionGroup h he _ _).bind fun found found' hf => ?_
        cases hf with
        | some hg => exact .pure (.methods hg)
        | none => exact matches_missingMember h _ _ _
      · exact .pure (.methods
          ⟨rfl, .instanceOf he, rfl, rfl, h.scopeTypes.method_eq_of_shared hids⟩)

theorem matches_memberOf {target target' : Denotation}
    (hd : DenotedAlike c scope.types r'.types target target') (name : Ident) (span : Span)
    (suppressErrors : Bool) :
    Matches c scope.types r'.types (memberOf scope target name span suppressErrors)
      (memberOf (scope.on r') target' name span suppressErrors)
      (DenotedAlike c scope.types r'.types) := by
  cases hd with
  | value he => exact matches_instanceMember h he _ _ _
  | type id own => exact matches_staticMember h _ _ _
  | entity entity own =>
      unfold memberOf
      dsimp only
      rw [scope.runtime_on, h.tree_eq]
      cases scope.runtime.tree.lookupIn? entity name.name 0 with
      | none => exact h.giveUp rfl (.failed c _ _ span)
      | some inner => cases inner <;> exact .pure (by constructor)
  | @methods group group' hg =>
      unfold memberOf
      refine (matches_toValue h (.methods hg)).bind fun _ _ _ => .pure ?_
      rw [hg.span_eq]
      exact .failed c _ _ _

theorem matches_callDenoted (callee : Expr) {denoted denoted' : Denotation}
    (hd : DenotedAlike c scope.types r'.types denoted denoted')
    {arguments arguments' : List BoundExpr}
    (hs : List.Forall₂ (BoundExpr.Alike c) arguments arguments') (span : Span) :
    Matches c scope.types r'.types (callDenoted scope callee denoted arguments span)
      (callDenoted (scope.on r') callee denoted' arguments' span) (BoundExpr.Alike c) := by
  cases hd with
  | methods hg =>
      unfold callDenoted
      dsimp only
      rw [BoundExpr.Alike.any_isError_eq hs]
      split
      · exact .pure (.failed c span)
      · exact matches_callGroup h hg hs span
  | value he =>
      unfold callDenoted
      dsimp only
      rw [he.isError_eq, he.type_eq, ← hs.length_eq]
      split
      · exact .pure (.failed c span)
      split
      · exact (Matches.descriptor _).bind fun d d' hd => .pure (.dynamic hd span (.cons he hs))
      · exact h.giveUp rfl (.failed c span)
  | type id own =>
      exact (matches_toValue h (.type id own)).bind fun _ _ _ => .pure (.failed c span)
  | entity entity own =>
      exact (matches_toValue h (.entity entity own)).bind fun _ _ _ => .pure (.failed c span)

theorem matches_bindIndex {target target' : BoundExpr} (he : target.Alike c target')
    {arguments arguments' : List BoundExpr}
    (hs : List.Forall₂ (BoundExpr.Alike c) arguments arguments') (span : Span) :
    Matches c scope.types r'.types (bindIndex scope target arguments span)
      (bindIndex (scope.on r') target' arguments' span) (BoundExpr.Alike c) := by
  unfold bindIndex
  rw [he.isError_eq, he.type_eq, BoundExpr.Alike.any_isError_eq hs, ← hs.length_eq]
  split
  · exact .pure (.failed c span)
  split
  · exact (Matches.descriptor _).bind fun d d' hd => .pure (.dynamic hd span (.cons he hs))
  refine (matches_methodsNamed h _ _ _).bind fun ids ids' hids => ?_
  obtain rfl := hids.1
  split
  · exact h.giveUp rfl (.failed c span)
  · have hgroup : MethodGroup.Alike c scope.types r'.types
        ⟨indexerName, .instanceOf target, ids', span⟩
        ⟨indexerName, .instanceOf target', ids', span⟩ :=
      ⟨rfl, .instanceOf he, rfl, rfl, h.scopeTypes.method_eq_of_shared hids⟩
    exact matches_callGroup h hgroup hs span

theorem matches_bindCast {operand operand' : BoundExpr} (he : operand.Alike c operand')
    (name : TypeName) (span : Span) :
    Matches c scope.types r'.types (bindCast scope operand name span)
      (bindCast (scope.on r') operand' name span) (BoundExpr.Alike c) := by
  refine (matches_resolveType h name).bindSame fun type => ?_
  cases type with
  | none => exact .pure (.failed c span)
  | some target => exact (matches_convert h he _ _).bind fun _ _ hc => .pure (hc.withSpan span)

theorem matches_bindAsType {operand operand' : BoundExpr} (he : operand.Alike c operand')
    (name : TypeName) (span : Span) :
    Matches c scope.types r'.types (bindAsType scope operand name span)
      (bindAsType (scope.on r') operand' name span) (BoundExpr.Alike c) := by
  refine (matches_resolveType h name).bindSame fun type => ?_
  cases type with
  | none => exact .pure (.failed c span)
  | some target =>
      dsimp only
      rw [he.isError_eq, scope.types_on, h.scopeTypes.isValueType_eq]
      split
      · exact .pure (.failed c span)
      · refine (Matches.descriptor _).bind fun d d' hd => ?_
        exact (matches_convertBy h he hd).bind fun _ _ hc => .pure (hc.withSpan span)

theorem matches_asTypeOf {d d' : Denotation} (hd : DenotedAlike c scope.types r'.types d d')
    (name : TypeName) (span : Span) :
    Matches c scope.types r'.types
      (do
        let operand ← toValue scope d
        return Denotation.value (← bindAsType scope operand name span))
      (do
        let operand ← toValue (scope.on r') d'
        return Denotation.value (← bindAsType (scope.on r') operand name span))
      (DenotedAlike c scope.types r'.types) :=
  (matches_toValue h hd).bind fun _ _ he =>
    (matches_bindAsType h he name span).bind fun _ _ ha => .pure (.value ha)

theorem matches_callMember (callee : Expr) {d d' : Denotation}
    (hd : DenotedAlike c scope.types r'.types d d') (name : Ident) (calleeSpan : Span)
    {arguments arguments' : List BoundExpr}
    (hs : List.Forall₂ (BoundExpr.Alike c) arguments arguments') (span : Span) :
    Matches c scope.types r'.types
      (do
        let denoted ← memberOf scope d name calleeSpan false
        return Denotation.value (← callDenoted scope callee denoted arguments span))
      (do
        let denoted ← memberOf (scope.on r') d' name calleeSpan false
        return Denotation.value (← callDenoted (scope.on r') callee denoted arguments' span))
      (DenotedAlike c scope.types r'.types) :=
  (matches_memberOf h hd name calleeSpan false).bind fun _ _ hm =>
    (matches_callDenoted h callee hm hs span).bind fun _ _ he => .pure (.value he)

end

-- Whole expressions

mutual

theorem matches_denote (h : scope.runtime.Agrees r') (e : Expr) :
    Matches c scope.types r'.types (denote scope e) (denote (scope.on r') e)
      (DenotedAlike c scope.types r'.types) := by
  cases e with
  | literal value span =>
      rw [denote, denote]
      exact .pure (.value rfl)
  | name ident span =>
      rw [denote, denote]
      exact matches_bindName h ident
  | member target name span =>
      rw [denote, denote]
      exact (matches_denote h target).bind fun _ _ ht => matches_memberOf h ht name span false
  | call callee arguments span =>
      rw [denote, denote]
      refine (matches_bindAll h arguments).bind fun given given' hs => ?_
      cases callee with
      | member target name calleeSpan =>
          refine (matches_denote h target).bind fun d d' hd => ?_
          cases hd with
          | @value receiver receiver' he =>
              dsimp only
              rw [he.type_eq, he.isError_eq, ← hs.length_eq]
              split
              · exact (Matches.descriptor _).bind fun d d' hd =>
                  .pure (.value (.dynamic hd span (.cons he hs)))
              · exact matches_callMember h _ (.value he) name calleeSpan hs span
          | type id own => exact matches_callMember h _ (.type id own) name calleeSpan hs span
          | entity entity own =>
              exact matches_callMember h _ (.entity entity own) name calleeSpan hs span
          | methods hg => exact matches_callMember h _ (.methods hg) name calleeSpan hs span
      | _ =>
          refine (matches_denote h _).bind fun d d' hd => ?_
          exact (matches_callDenoted h _ hd hs span).bind fun _ _ he => .pure (.value he)
  | index target arguments span =>
      rw [denote, denote]
      refine (matches_denote h target).bind fun _ _ ht => ?_
      refine (matches_toValue h ht).bind fun _ _ he => ?_
      refine (matches_bindAll h arguments).bind fun _ _ hs => ?_
      exact (matches_bindIndex h he hs span).bind fun _ _ hi => .pure (.value hi)
  | unary op operand span =>
      rw [denote, denote]
      refine (matches_denote h operand).bind fun _ _ ho => ?_
      refine (matches_toValue h ho).bind fun _ _ he => ?_
      exact (matches_bindUnary h op he span).bind fun _ _ hu => .pure (.value hu)
  | binary op left right span =>
      rw [denote, denote]
      refine (matches_denote h left).bind fun _ _ hl => ?_
      refine (matches_toValue h hl).bind fun _ _ hleft => ?_
      refine (matches_denote h right).bind fun _ _ hr => ?_
      refine (matches_toValue h hr).bind fun _ _ hright => ?_
      exact (matches_bindBinary h op hleft hright span).bind fun _ _ hb => .pure (.value hb)
  | cast name operand span =>
      rw [denote, denote]
      refine (matches_denote h operand).bind fun _ _ ho => ?_
      refine (matches_toValue h ho).bind fun _ _ he => ?_
      exact (matches_bindCast h he name span).bind fun _ _ hc => .pure (.value hc)
  | asType operand name span =>
      cases operand with
      | member target member memberSpan =>
          rw [denote, denote]
          refine (matches_denote h target).bind fun _ _ ht => ?_
          exact (matches_memberOf h ht member memberSpan true).bind fun _ _ hm =>
            matches_asTypeOf h hm name span
      | _ =>
          rw [denote_asType scope, denote_asType (scope.on r')]
          · exact (matches_denote h _).bind fun _ _ ho => matches_asTypeOf h ho name span
          all_goals simp
  | guarded checked operand span =>
      rw [denote, denote]
      exact .inScope (matches_denote h operand)

theorem matches_bindAll (h : scope.runtime.Agrees r') (es : List Expr) :
    Matches c scope.types r'.types (bindAll scope es) (bindAll (scope.on r') es)
      (List.Forall₂ (BoundExpr.Alike c)) := by
  cases es with
  | nil =>
      rw [bindAll, bindAll]
      exact .pure .nil
  | cons e rest =>
      rw [bindAll, bindAll]
      refine (matches_denote h e).bind fun _ _ hd => ?_
      refine (matches_toValue h hd).bind fun _ _ he => ?_
      exact (matches_bindAll h rest).bind fun _ _ hs => .pure (.cons he hs)

end

theorem matches_bind (h : scope.runtime.Agrees r') (e : Expr) :
    Matches c scope.types r'.types (bind scope e) (bind (scope.on r') e) (BoundExpr.Alike c) :=
  (matches_denote h e).bind fun _ _ hd => matches_toValue h hd

theorem matches_bindTo (h : scope.runtime.Agrees r') (e : Expr) (target : TypeId) :
    Matches c scope.types r'.types (bindTo scope e target) (bindTo (scope.on r') e target)
      (BoundExpr.Alike c) :=
  (matches_bind h e).bind fun _ _ he => matches_convert h he target .implicitCast

end EventScript.Binding
