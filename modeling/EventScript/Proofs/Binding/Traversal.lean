import EventScript.Binding.Binder
import EventScript.Proofs.Binding.Compiling

namespace EventScript.Binding

open Compiling

-- What every part of the walk over an expression keeps: something about the state, about bound
-- expressions, and about what parts of the expression stand for.
structure Carries (scope : BindingScope) (I : Compilation → Prop) (V : BoundExpr → Prop)
    (D : Denotation → Prop) : Prop where
  value : ∀ {e : BoundExpr}, V e → D (.value e)
  inCheckedScope : ∀ (checked : Bool) {m : Compiling Denotation}, Gives I m D →
    Gives I (inScope (·.enterWith .checkedScope checked) m) D
  literal : ∀ (value : Literal) (span : Span),
    V (.node (.literal value) (literalType value) span [])
  toValue : ∀ {denoted : Denotation}, D denoted → Gives I (toValue scope denoted) V
  bindName : ∀ ident : Ident, Gives I (bindName scope ident) D
  memberOf : ∀ {target : Denotation}, D target → ∀ (name : Ident) (span : Span)
    (suppressErrors : Bool), Gives I (memberOf scope target name span suppressErrors) D
  callDenoted : ∀ (callee : Expr) {denoted : Denotation}, D denoted →
    ∀ {arguments : List BoundExpr}, (∀ a ∈ arguments, V a) → ∀ span : Span,
      Gives I (callDenoted scope callee denoted arguments span) V
  callObject : ∀ {receiver : BoundExpr}, D (.value receiver) → receiver.type = .object →
    ¬receiver.isError → ∀ (name : Ident) {arguments : List BoundExpr}, (∀ a ∈ arguments, V a) →
      ∀ span : Span, Gives I (do
        let descriptor ← descriptor (.invokeMember name.name arguments.length)
        return .value (.dynamic descriptor (receiver :: arguments) span)) D
  bindIndex : ∀ {target : BoundExpr}, V target → ∀ {arguments : List BoundExpr},
    (∀ a ∈ arguments, V a) → ∀ span : Span, Gives I (bindIndex scope target arguments span) V
  bindUnary : ∀ (op : UnaryOperator) {operand : BoundExpr}, V operand → ∀ span : Span,
    Gives I (bindUnary scope op operand span) V
  bindBinary : ∀ (op : BinaryOperator) {left right : BoundExpr}, V left → V right →
    ∀ span : Span, Gives I (bindBinary scope op left right span) V
  bindCast : ∀ {operand : BoundExpr}, V operand → ∀ (name : TypeName) (span : Span),
    Gives I (bindCast scope operand name span) V
  bindAsType : ∀ {operand : BoundExpr}, V operand → ∀ (name : TypeName) (span : Span),
    Gives I (bindAsType scope operand name span) V

namespace Carries

variable {scope : BindingScope} {I : Compilation → Prop} {V : BoundExpr → Prop}
  {D : Denotation → Prop}

-- What is bound next uses the value of what has been denoted.
theorem asValue (h : Carries scope I V D) {β : Type} {m : Compiling Denotation}
    {f : BoundExpr → Compiling β} {Q : β → Prop} (hm : Gives I m D)
    (hf : ∀ e, V e → Gives I (f e) Q) :
    Gives I (do let denoted ← m; let e ← Binding.toValue scope denoted; f e) Q :=
  hm.bind fun _ hd => (h.toValue hd).bind hf

theorem ofValue (h : Carries scope I V D) {m : Compiling BoundExpr} (hm : Gives I m V) :
    Gives I (do return Denotation.value (← m)) D :=
  hm.bind fun _ he => .pure (h.value he)

-- A call whose callee is a member, for all targets but objects.
theorem callMember (h : Carries scope I V D) (callee : Expr) {target : Denotation}
    (ht : D target) (name : Ident) (calleeSpan : Span) {arguments : List BoundExpr}
    (hs : ∀ a ∈ arguments, V a) (span : Span) :
    Gives I (do
      let denoted ← Binding.memberOf scope target name calleeSpan false
      return Denotation.value (← Binding.callDenoted scope callee denoted arguments span)) D :=
  (h.memberOf ht name calleeSpan false).bind fun _ hm => h.ofValue (h.callDenoted callee hm hs span)

mutual

-- The induction is that of the binder on the expression, with lists of expressions beside it.
theorem denote (h : Carries scope I V D) (e : Expr) : Gives I (Binding.denote scope e) D := by
  match e with
  | .literal value span =>
      rw [Binding.denote]
      exact .pure (h.value (h.literal value span))
  | .name ident span =>
      rw [Binding.denote]
      exact h.bindName ident
  | .member target name span =>
      rw [Binding.denote]
      exact (h.denote target).bind fun denoted hd => h.memberOf hd name span false
  | .index target arguments span =>
      rw [Binding.denote]
      refine h.asValue (h.denote target) fun value hv => ?_
      refine (h.bindAll arguments).bind fun values hs => ?_
      exact h.ofValue (h.bindIndex hv hs span)
  | .unary op operand span =>
      rw [Binding.denote]
      refine h.asValue (h.denote operand) fun value hv => ?_
      exact h.ofValue (h.bindUnary op hv span)
  | .binary op left right span =>
      rw [Binding.denote]
      refine h.asValue (h.denote left) fun first hf => ?_
      refine h.asValue (h.denote right) fun second hs => ?_
      exact h.ofValue (h.bindBinary op hf hs span)
  | .cast name operand span =>
      rw [Binding.denote]
      refine h.asValue (h.denote operand) fun value hv => ?_
      exact h.ofValue (h.bindCast hv name span)
  | .guarded checked operand span =>
      rw [Binding.denote]
      exact h.inCheckedScope checked (h.denote operand)
  | .asType operand name span =>
      cases operand with
      | member target member memberSpan =>
          rw [Binding.denote]
          refine (h.denote target).bind fun denoted hd => ?_
          refine h.asValue (h.memberOf hd member memberSpan true) fun value hv => ?_
          exact h.ofValue (h.bindAsType hv name span)
      | _ =>
          rw [Binding.denote]
          · refine h.asValue (h.denote _) fun value hv => ?_
            exact h.ofValue (h.bindAsType hv name span)
          · nofun
  | .call callee arguments span =>
      rw [Binding.denote]
      refine (h.bindAll arguments).bind fun values hs => ?_
      cases callee with
      | member target name calleeSpan =>
          refine (h.denote target).bind fun denoted hd => ?_
          cases denoted with
          | value receiver =>
              dsimp only
              split
              · rename_i hobject
                exact h.callObject hd hobject.1 hobject.2 name hs span
              · exact h.callMember _ hd name calleeSpan hs span
          | _ => exact h.callMember _ hd name calleeSpan hs span
      | _ =>
          dsimp only
          refine (h.denote _).bind fun denoted hd => ?_
          exact h.ofValue (h.callDenoted _ hd hs span)

theorem bindAll (h : Carries scope I V D) (es : List Expr) :
    Gives I (Binding.bindAll scope es) fun values => ∀ value ∈ values, V value := by
  match es with
  | [] =>
      rw [Binding.bindAll]
      exact .pure (by simp)
  | e :: rest =>
      rw [Binding.bindAll]
      refine h.asValue (h.denote e) fun value hv => ?_
      refine (h.bindAll rest).bind fun values hs => .pure ?_
      exact List.forall_mem_cons.mpr ⟨hv, hs⟩

end

theorem bind (h : Carries scope I V D) (e : Expr) : Gives I (Binding.bind scope e) V :=
  (h.denote e).bind fun _ hd => h.toValue hd

end Carries

end EventScript.Binding
