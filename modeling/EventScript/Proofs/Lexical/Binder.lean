import EventScript.Proofs.Lexical.Naming

namespace EventScript

-- Whether the arithmetic of a node is checked, if it has any.
def BoundOp.checked? : BoundOp → Option Bool
  | convert _ _ checked | unary _ _ checked | binary _ _ checked => some checked
  | _ => none

namespace Binding

open Compiling Recording

variable {scope : BindingScope} {checked : Bool}

-- What looks at no flags

theorem flagless_resolveType (name : TypeName) : Flagless (resolveType scope name) :=
  Says.flagless fun before => says_resolveType name before

theorem flagless_toValue (denoted : Denotation) : Flagless (toValue scope denoted) := by
  cases denoted with
  | value e => exact .pure e
  | type id span => exact (Flagless.fault _ _ _).bind fun _ => .pure _
  | entity entity span => exact (Flagless.fault _ _ _).bind fun _ => .pure _
  | methods group => exact (Flagless.fault _ _ _).bind fun _ => .pure _

theorem flagless_lookupName (ident : Ident) (arity : Nat) :
    Flagless (lookupName scope ident arity) :=
  Says.flagless fun _ => says_lookupName ident arity

theorem flagless_bindName (ident : Ident) : Flagless (bindName scope ident) := by
  unfold bindName
  split
  · exact .pure _
  refine Flagless.errorCount.bind fun before => (flagless_lookupName ident 0).bind fun found => ?_
  split
  · exact .pure _
  · exact .pure _
  · refine Flagless.errorCount.bind fun after => ?_
    split
    · exact (Flagless.fault _ _ _).bind fun _ => .pure _
    · exact .pure _

theorem flagless_methodsNamed (type : TypeId) (name : String) (isStatic : Bool) :
    Flagless (methodsNamed scope type name isStatic) :=
  (Flagless.search _).bind fun _ => .pure _

theorem flagless_extensionGroup (receiver : BoundExpr) (name : String) (span : Span) :
    Flagless (extensionGroup scope receiver name span) := by
  refine (Flagless.search _).bind fun methods => ?_
  split <;> exact .pure _

theorem flagless_missingMember (type : TypeId) (name : Ident) (span : Span) :
    Flagless (missingMember scope type name span) :=
  (Flagless.fault _ _ _).bind fun _ => .pure _

theorem flagless_staticMember (type : TypeId) (name : Ident) (span : Span) :
    Flagless (staticMember scope type name span) := by
  unfold staticMember
  split
  · exact .pure _
  refine (flagless_methodsNamed type name.name true).bind fun methods => ?_
  split
  · exact flagless_missingMember _ _ _
  · exact .pure _

theorem flagless_instanceMember (value : BoundExpr) (name : Ident) (span : Span)
    (suppressErrors : Bool) : Flagless (instanceMember scope value name span suppressErrors) := by
  unfold instanceMember
  split
  · exact .pure _
  split
  · exact (Flagless.descriptor _).bind fun _ => .pure _
  split
  · exact .pure _
  refine (flagless_methodsNamed value.type name.name false).bind fun methods => ?_
  split
  · refine (flagless_extensionGroup value name.name span).bind fun found => ?_
    split
    · exact .pure _
    · exact flagless_missingMember _ _ _
  · exact .pure _

theorem flagless_memberOf (target : Denotation) (name : Ident) (span : Span)
    (suppressErrors : Bool) : Flagless (memberOf scope target name span suppressErrors) := by
  cases target with
  | entity entity entitySpan =>
      simp only [memberOf]
      split
      · exact .pure _
      · exact .pure _
      · exact (Flagless.fault _ _ _).bind fun _ => .pure _
  | type id typeSpan => exact flagless_staticMember _ _ _
  | value value => exact flagless_instanceMember _ _ _ _
  | methods group => exact (flagless_toValue (.methods group)).bind fun _ => .pure _

theorem flagless_unaryType (op : UnaryOperator) (operand : TypeId) :
    Flagless (unaryType scope op operand) := by
  cases op with
  | not => exact (Flagless.search _).bind fun _ => .pure _
  | negate => exact .pure _
  | plus => exact .pure _

theorem flagless_binarySignature (op : BinaryOperator) (left right : TypeId) :
    Flagless (binarySignature scope op left right) := by
  unfold binarySignature
  split
  · exact .pure _
  split
  · refine (Flagless.search _).bind fun fits => ?_
    split
    · refine (Flagless.search _).bind fun fits => ?_
      split <;> exact .pure _
    · exact .pure _
  split
  · exact .pure _
  split <;> exact .pure _

theorem flagless_refuseCall (group : MethodGroup) (given : List BoundExpr) (span : Span) :
    Flagless (refuseCall scope group given span) :=
  (Flagless.fault _ _ _).bind fun _ => .pure _

-- What makes nodes that are checked or not

theorem follows_applyConversion (e : BoundExpr) (conversion : Conversion)
    (descriptor : Descriptor) :
    Follows checked (applyConversion scope e conversion descriptor)
      (Lexical.applyConversion scope checked e conversion descriptor) := by
  unfold applyConversion Lexical.applyConversion
  split
  · exact .pure _
  split
  · exact .bindFlagless (.fault _ _ _) fun _ => .pure _
  · exact .isChecked (.pure _)

theorem follows_convertBy (e : BoundExpr) (descriptor : Descriptor) :
    Follows checked (convertBy scope e descriptor) (Lexical.convertBy scope checked e descriptor) := by
  refine .bindFlagless (.search _) fun found => ?_
  cases found with
  | some conversion => exact follows_applyConversion _ _ _
  | none => exact .pure _

theorem follows_convert (e : BoundExpr) (target : TypeId) (mode : ConversionMode) :
    Follows checked (convert scope e target mode) (Lexical.convert scope checked e target mode) := by
  unfold convert Lexical.convert
  split
  · exact .pure _
  · exact .bindFlagless (.descriptor _) fun _ => follows_convertBy _ _

theorem follows_bindUnary (op : UnaryOperator) (operand : BoundExpr) (span : Span) :
    Follows checked (bindUnary scope op operand span)
      (Lexical.bindUnary scope checked op operand span) := by
  unfold bindUnary Lexical.bindUnary
  split
  · exact .pure _
  refine .bindFlagless (.descriptor _) fun descriptor => .isChecked ?_
  split
  · exact .pure _
  refine .bindFlagless (flagless_unaryType _ _) fun found => ?_
  cases found with
  | some type => exact (follows_convert _ _ _).bind fun converted => .pure _
  | none => exact .bindFlagless (.fault _ _ _) fun _ => .pure _

theorem follows_bindBinary (op : BinaryOperator) (left right : BoundExpr) (span : Span) :
    Follows checked (bindBinary scope op left right span)
      (Lexical.bindBinary scope checked op left right span) := by
  unfold bindBinary Lexical.bindBinary
  split
  · exact .pure _
  refine .bindFlagless (flagless_binarySignature _ _ _) fun found => ?_
  cases found with
  | some signature =>
      refine (follows_convert _ _ _).bind fun left => (follows_convert _ _ _).bind fun right => ?_
      exact .bindFlagless (.descriptor _) fun descriptor => .isChecked (.pure _)
  | none => exact .bindFlagless (.fault _ _ _) fun _ => .pure _

theorem follows_convertArguments (parameters : List TypeId) (arguments : List BoundExpr) :
    Follows checked (convertArguments scope parameters arguments)
      (Lexical.convertArguments scope checked parameters arguments) := by
  induction parameters generalizing arguments with
  | nil => cases arguments <;> exact .pure _
  | cons parameter parameters ih =>
      cases arguments with
      | nil => exact .pure _
      | cons argument arguments =>
          have hcons (first : BoundExpr) :
              Follows checked (do return first :: (← convertArguments scope parameters arguments))
                (do return first :: (← Lexical.convertArguments scope checked parameters arguments)) :=
            (ih arguments).bind fun rest => .pure _
          rw [convertArguments, Lexical.convertArguments]
          split
          · exact hcons argument
          · exact (follows_convert _ _ _).bind hcons

theorem follows_buildCall (group : MethodGroup) (method : MethodId) (given : List BoundExpr)
    (span : Span) :
    Follows checked (buildCall scope group method given span)
      (Lexical.buildCall scope checked group method given span) := by
  refine (follows_convertArguments _ _).bind fun converted => ?_
  dsimp only
  split
  · exact .pure _
  · cases group.target <;> exact .pure _

theorem follows_callGroupOr (group : MethodGroup) (given : List BoundExpr) (span : Span)
    {otherwise : Compiling BoundExpr} {instead : Recording BoundExpr}
    (h : Follows checked otherwise instead) :
    Follows checked (callGroupOr scope group given span otherwise)
      (Lexical.callGroupOr scope checked group given span instead) := by
  refine (Follows.inProbingScope _).bind fun overload => ?_
  cases overload with
  | found method => exact follows_buildCall _ _ _ _
  | ambiguous first second => exact .bindFlagless (.fault _ _ _) fun _ => .pure _
  | noMatch => exact h

theorem follows_callGroup (group : MethodGroup) (given : List BoundExpr) (span : Span) :
    Follows checked (callGroup scope group given span)
      (Lexical.callGroup scope checked group given span) := by
  refine follows_callGroupOr _ _ _ ?_
  cases group.target with
  | instanceOf receiver =>
      refine .bindFlagless (flagless_extensionGroup _ _ _) fun found => ?_
      cases found with
      | some extensions => exact follows_callGroupOr _ _ _ (flagless_refuseCall _ _ _).follows
      | none => exact (flagless_refuseCall _ _ _).follows
  | static => exact (flagless_refuseCall _ _ _).follows
  | extension receiver => exact (flagless_refuseCall _ _ _).follows

theorem follows_callDenoted (callee : Expr) (denoted : Denotation) (arguments : List BoundExpr)
    (span : Span) :
    Follows checked (callDenoted scope callee denoted arguments span)
      (Lexical.callDenoted scope checked callee denoted arguments span) := by
  cases denoted with
  | methods group =>
      simp only [callDenoted, Lexical.callDenoted]
      split
      · exact .pure _
      · exact follows_callGroup _ _ _
  | value value =>
      simp only [callDenoted, Lexical.callDenoted]
      split
      · exact .pure _
      split
      · exact .bindFlagless (.descriptor _) fun _ => .pure _
      · exact .bindFlagless (.fault _ _ _) fun _ => .pure _
  | type id typeSpan => exact .bindFlagless (flagless_toValue _) fun _ => .pure _
  | entity entity entitySpan => exact .bindFlagless (flagless_toValue _) fun _ => .pure _

theorem follows_bindIndex (target : BoundExpr) (arguments : List BoundExpr) (span : Span) :
    Follows checked (bindIndex scope target arguments span)
      (Lexical.bindIndex scope checked target arguments span) := by
  unfold bindIndex Lexical.bindIndex
  split
  · exact .pure _
  split
  · exact .bindFlagless (.descriptor _) fun _ => .pure _
  refine .bindFlagless (flagless_methodsNamed _ _ _) fun methods => ?_
  cases methods with
  | nil => exact .bindFlagless (.fault _ _ _) fun _ => .pure _
  | cons first rest => exact follows_callGroup _ _ _

theorem follows_bindCast (operand : BoundExpr) (name : TypeName) (span : Span) :
    Follows checked (bindCast scope operand name span)
      (Lexical.bindCast scope checked operand name span) := by
  refine .bindFlagless (flagless_resolveType name) fun found => ?_
  cases found with
  | none => exact .pure _
  | some target => exact (follows_convert _ _ _).bind fun converted => .pure _

theorem follows_bindAsType (operand : BoundExpr) (name : TypeName) (span : Span) :
    Follows checked (bindAsType scope operand name span)
      (Lexical.bindAsType scope checked operand name span) := by
  refine .bindFlagless (flagless_resolveType name) fun found => ?_
  cases found with
  | none => exact .pure _
  | some target =>
      dsimp only
      split
      · exact .pure _
      refine .bindFlagless (.descriptor _) fun descriptor => ?_
      exact (follows_convertBy _ _).bind fun converted => .pure _

-- Expressions

-- What is bound next uses the value of what has been denoted.
theorem follows_asValue {β : Type} {m : Compiling Denotation} {r : Recording Denotation}
    {f : BoundExpr → Compiling β} {g : BoundExpr → Recording β} (hm : Follows checked m r)
    (hf : ∀ e, Follows checked (f e) (g e)) :
    Follows checked (do let denoted ← m; let e ← toValue scope denoted; f e)
      (do let denoted ← r; let e ← unflagged (toValue scope denoted); g e) :=
  hm.bind fun denoted => .bindFlagless (flagless_toValue denoted) hf

theorem follows_value {m : Compiling BoundExpr} {r : Recording BoundExpr}
    (hm : Follows checked m r) :
    Follows checked (do return Denotation.value (← m)) (do return Denotation.value (← r)) :=
  hm.bind fun _ => .pure _

-- A call whose callee is a member, for all targets but objects.
theorem follows_callMember (target : Expr) (denoted : Denotation) (name : Ident)
    (calleeSpan : Span) (arguments : List BoundExpr) (span : Span) :
    Follows checked
      (do
        let denoted ← memberOf scope denoted name calleeSpan false
        let callee := Expr.member target name calleeSpan
        return Denotation.value (← callDenoted scope callee denoted arguments span))
      (do
        let denoted ← unflagged (memberOf scope denoted name calleeSpan false)
        let callee := Expr.member target name calleeSpan
        return Denotation.value (← Lexical.callDenoted scope checked callee denoted arguments span)) :=
  .bindFlagless (flagless_memberOf _ _ _ _) fun _ => follows_value (follows_callDenoted _ _ _ _)

mutual

-- The induction is that of the binder on the expression. Each construct hands on what it has been
-- told, since its operands leave the flags as they find them.
theorem follows_denote (e : Expr) (checked : Bool) :
    Follows checked (denote scope e) (Lexical.denote scope checked e) := by
  match e with
  | .literal value span =>
      rw [denote, Lexical.denote]
      exact .pure _
  | .name ident span =>
      rw [denote, Lexical.denote]
      exact (flagless_bindName ident).follows
  | .member target name span =>
      rw [denote, Lexical.denote]
      exact (follows_denote target checked).bind fun _ => (flagless_memberOf _ _ _ _).follows
  | .index target arguments span =>
      rw [denote, Lexical.denote]
      refine follows_asValue (follows_denote target checked) fun target => ?_
      refine (follows_bindAll arguments checked).bind fun arguments => ?_
      exact follows_value (follows_bindIndex _ _ _)
  | .unary op operand span =>
      rw [denote, Lexical.denote]
      refine follows_asValue (follows_denote operand checked) fun operand => ?_
      exact follows_value (follows_bindUnary _ _ _)
  | .binary op left right span =>
      rw [denote, Lexical.denote]
      refine follows_asValue (follows_denote left checked) fun left => ?_
      refine follows_asValue (follows_denote right checked) fun right => ?_
      exact follows_value (follows_bindBinary _ _ _ _)
  | .cast name operand span =>
      rw [denote, Lexical.denote]
      refine follows_asValue (follows_denote operand checked) fun operand => ?_
      exact follows_value (follows_bindCast _ _ _)
  | .guarded on operand span =>
      rw [denote, Lexical.denote]
      exact (follows_denote operand on).inCheckedScope
  | .asType operand name span =>
      cases operand with
      | member target member memberSpan =>
          rw [denote, Lexical.denote]
          refine (follows_denote target checked).bind fun denoted => ?_
          refine follows_asValue (flagless_memberOf _ _ _ _).follows fun operand => ?_
          exact follows_value (follows_bindAsType _ _ _)
      | _ =>
          rw [denote, Lexical.denote]
          · refine follows_asValue (follows_denote _ checked) fun operand => ?_
            exact follows_value (follows_bindAsType _ _ _)
          · nofun
          · nofun
  | .call callee arguments span =>
      rw [denote, Lexical.denote]
      refine (follows_bindAll arguments checked).bind fun arguments => ?_
      cases callee with
      | member target name calleeSpan =>
          refine (follows_denote target checked).bind fun denoted => ?_
          cases denoted with
          | value receiver =>
              dsimp only
              split
              · exact .bindFlagless (.descriptor _) fun _ => .pure _
              · exact follows_callMember _ _ _ _ _ _
          | _ => exact follows_callMember _ _ _ _ _ _
      | _ =>
          dsimp only
          refine (follows_denote _ checked).bind fun denoted => ?_
          exact follows_value (follows_callDenoted _ _ _ _)

theorem follows_bindAll (es : List Expr) (checked : Bool) :
    Follows checked (bindAll scope es) (Lexical.bindAll scope checked es) := by
  match es with
  | [] =>
      rw [bindAll, Lexical.bindAll]
      exact .pure _
  | e :: rest =>
      rw [bindAll, Lexical.bindAll]
      refine follows_asValue (follows_denote e checked) fun first => ?_
      exact (follows_bindAll rest checked).bind fun rest => .pure _

end

theorem follows_bind (e : Expr) (checked : Bool) :
    Follows checked (bind scope e) (Lexical.bind scope checked e) :=
  (follows_denote e checked).bind fun _ => (flagless_toValue _).follows

-- The binder computes what its lexical form does, and finds the flags again as it has left them.
theorem bind_eq_lexical (e : Expr) (s : Compilation)
    (hdeclared : ScopeFlags.declared.hasAll s.flags)
    (hprobing : s.flags.hasAll .probingMode = false) :
    bind scope e s =
      (Lexical.bind scope (s.flags.hasAll .checkedScope) e).keepingFlags s :=
  follows_bind e _ s ⟨hdeclared, hprobing, rfl⟩

-- The sum of a long number and a product, `checked` around the sum and `unchecked` around the
-- product. The product is made long by the sum.
def mixedScopes : Expr :=
  let factor (value : Nat) : Expr := .literal (.int value .none) .none
  let product : Expr := .binary .multiply (factor 2) (factor 3) .none
  .guarded true (.binary .add (.literal (.int 1 .long) .none) (.guarded false product .none) .none)
    .none

theorem bind_mixedScopes :
    let scope : BindingScope := ⟨.ofTable .initial, .empty, []⟩
    let start : Compilation := ⟨.empty, .empty, []⟩
    bind scope mixedScopes start = (Lexical.bind scope false mixedScopes).keepingFlags start ∧
      (bind scope mixedScopes start).1.nodes.filterMap (·.op.checked?) = [true, true, false] :=
  ⟨bind_eq_lexical mixedScopes ⟨.empty, .empty, []⟩ (by decide) (by decide), by decide +kernel⟩

end Binding

end EventScript
