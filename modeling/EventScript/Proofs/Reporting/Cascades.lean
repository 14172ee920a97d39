import EventScript.Proofs.Lexical.Binder

namespace EventScript

namespace Compiling

variable {α : Type} {m : Compiling α} {r : Recording α} {s : Compilation} {checked : Bool}

theorem Follows.plain (h : Follows checked m r) (hs : s.flags.Plain checked) :
    (m s).2.flags.Plain checked := by
  rw [h s hs]
  exact hs

theorem diagnostics_fault (r : Runtime) (f : BindingFault) (span : Span)
    (hs : s.flags.hasAll .probingMode = false) :
    (fault r f span s).2.diagnostics ≠ s.diagnostics := by
  rw [fault_kept r f span hs]
  simp

end Compiling

namespace Binding

open Compiling

variable {scope : BindingScope} {s : Compilation} {span : Span}

def Denotation.isError : Denotation → Bool
  | value e => e.isError
  | _ => false

@[simp] theorem Denotation.isError_value (e : BoundExpr) :
    isError (.value e) = e.isError := rfl

theorem any_isError_values (es : List BoundExpr) :
    (es.map Denotation.value).any (·.isError) = es.any (·.isError) := by
  rw [List.any_map]
  rfl

-- Neither methods, nor an object, nor something that has failed before.
def Denotation.isUncallable : Denotation → Bool
  | value e => !e.isError && e.type ≠ .object
  | type _ _ | entity _ _ => true
  | methods _ => false

-- The operand of an `as`. A member that is missing at run time is no error there.
def bindAsOperand (scope : BindingScope) : Expr → Compiling BoundExpr
  | .member target member span => do
    toValue scope (← memberOf scope (← denote scope target) member span true)
  | operand => bind scope operand

-- The operands of an expression as they are bound for it, in this order: what is called or has a
-- member read of it by what it stands for, every other one by its value.
def bindOperands (scope : BindingScope) : Expr → Compiling (List Denotation)
  | .literal _ _ | .name _ _ => return []
  | .member target _ _ => do return [← denote scope target]
  | .call callee arguments _ => do
    let arguments ← bindAll scope arguments
    return (← denote scope callee) :: arguments.map .value
  | .index target arguments _ => do
    let target ← bind scope target
    return (target :: (← bindAll scope arguments)).map .value
  | .unary _ operand _ | .cast _ operand _ => do return [.value (← bind scope operand)]
  | .binary _ left right _ => do
    let left ← bind scope left
    return [.value left, .value (← bind scope right)]
  | .asType operand _ _ => do return [.value (← bindAsOperand scope operand)]
  | .guarded checked operand _ => do
    return [← inScope (·.enterWith .checkedScope checked) (denote scope operand)]

-- What is reported whether an operand has failed or not: a callee that cannot be called, and the
-- name of a type that there is not.
def reportsAnyway (scope : BindingScope) (after : Compilation) :
    Expr → List Denotation → Bool
  | .call _ _ _, callee :: _ => callee.isUncallable
  | .cast name _ _, _ | .asType _ name _, _ => (resolveType scope name after).1.isNone
  | _, _ => false

-- Operands that have failed

theorem memberOf_of_isError {target : Denotation} (h : target.isError) (name : Ident)
    (suppressErrors : Bool) :
    memberOf scope target name span suppressErrors = pure (.value (.failed span)) := by
  cases target with
  | value value =>
      have he : value.isError = true := h
      simp [memberOf, instanceMember, he]
  | _ => cases h

theorem diagnostics_toValue_of_isError {denoted : Denotation} (h : denoted.isError) :
    (toValue scope denoted s).2 = s := by
  cases denoted with
  | value e => rfl
  | _ => cases h

theorem bindUnary_of_isError {op : UnaryOperator} {operand : BoundExpr} (h : operand.isError) :
    bindUnary scope op operand span = pure (.failed span) := by
  rw [bindUnary, if_pos h]

theorem bindBinary_of_isError {op : BinaryOperator} {left right : BoundExpr}
    (h : left.isError || right.isError) :
    bindBinary scope op left right span = pure (.failed span) := by
  rw [bindBinary, if_pos h]

theorem bindIndex_of_isError {target : BoundExpr} {arguments : List BoundExpr}
    (h : target.isError || arguments.any (·.isError)) :
    bindIndex scope target arguments span = pure (.failed span) := by
  rw [bindIndex, if_pos h]

theorem convert_of_isError {e : BoundExpr} (h : e.isError) (target : TypeId)
    (mode : ConversionMode) : convert scope e target mode = pure e := by
  rw [convert, if_pos h]

-- The search for a type has told all there is to report: its failure, if it fails.
theorem diagnostics_resolveType (name : TypeName) (hs : s.flags.hasAll .probingMode = false) :
    (resolveType scope name s).2.diagnostics = s.diagnostics ↔
      (resolveType scope name s).1.isNone = false := by
  have hsays : Says s.diagnostics (resolveType scope name) _ := says_resolveType name s.diagnostics
  obtain ⟨found, ds, hf, -, hrun⟩ := hsays
  rw [hrun s rfl hs]
  cases found with
  | none => simpa using hf
  | some type => simpa using hf

theorem diagnostics_bindCast {operand : BoundExpr} (h : operand.isError) (name : TypeName)
    (hs : s.flags.hasAll .probingMode = false) :
    (bindCast scope operand name span s).2.diagnostics = s.diagnostics ↔
      (resolveType scope name s).1.isNone = false := by
  rw [← diagnostics_resolveType name hs, bindCast, bind_apply]
  cases (resolveType scope name s).1 with
  | none => rfl
  | some target =>
      dsimp only
      rw [convert_of_isError h]
      rfl

theorem diagnostics_bindAsType {operand : BoundExpr} (h : operand.isError) (name : TypeName)
    (hs : s.flags.hasAll .probingMode = false) :
    (bindAsType scope operand name span s).2.diagnostics = s.diagnostics ↔
      (resolveType scope name s).1.isNone = false := by
  rw [← diagnostics_resolveType name hs, bindAsType, bind_apply]
  cases (resolveType scope name s).1 with
  | none => rfl
  | some target =>
      dsimp only
      rw [if_pos h]
      rfl

theorem diagnostics_callDenoted {callee : Expr} {denoted : Denotation}
    {arguments : List BoundExpr} (h : denoted.isError ∨ arguments.any (·.isError))
    (hs : s.flags.hasAll .probingMode = false) :
    (callDenoted scope callee denoted arguments span s).2.diagnostics = s.diagnostics ↔
      denoted.isUncallable = false := by
  cases denoted with
  | methods group =>
      have harguments : arguments.any (·.isError) = true := h.resolve_left Bool.false_ne_true
      rw [callDenoted, if_pos harguments]
      exact iff_of_true rfl rfl
  | value value =>
      simp only [callDenoted, Denotation.isUncallable]
      split
      · rename_i he
        simp [he]
      split
      · rename_i hobject
        simp only [hobject]
        exact iff_of_true rfl (by simp)
      · rename_i he hobject
        refine iff_of_false (diagnostics_fault _ _ _ hs) ?_
        simp [he, hobject]
  | type id typeSpan => exact iff_of_false (diagnostics_fault _ _ _ hs) Bool.false_ne_true.symm
  | entity entity entitySpan =>
      exact iff_of_false (diagnostics_fault _ _ _ hs) Bool.false_ne_true.symm

-- Operands that are bound by their values

theorem bind_index (target : Expr) (arguments : List Expr) :
    bind scope (.index target arguments span) =
      (do bindIndex scope (← bind scope target) (← bindAll scope arguments) span) := by
  rw [bind, denote]
  rfl

theorem bind_unary (op : UnaryOperator) (operand : Expr) :
    bind scope (.unary op operand span) =
      (do bindUnary scope op (← bind scope operand) span) := by
  rw [bind, denote]
  rfl

theorem bind_binary (op : BinaryOperator) (left right : Expr) :
    bind scope (.binary op left right span) =
      (do bindBinary scope op (← bind scope left) (← bind scope right) span) := by
  rw [bind, denote]
  rfl

theorem bind_cast (name : TypeName) (operand : Expr) :
    bind scope (.cast name operand span) =
      (do bindCast scope (← bind scope operand) name span) := by
  rw [bind, denote]
  rfl

theorem bind_asType (operand : Expr) (name : TypeName) :
    bind scope (.asType operand name span) =
      (do bindAsType scope (← bindAsOperand scope operand) name span) := by
  cases operand with
  | member target member memberSpan =>
      rw [bind, denote, bindAsOperand]
      rfl
  | _ =>
      rw [bind, denote, bindAsOperand]
      · rfl
      all_goals
        intro _ _ _ h
        cases h

theorem plain_bindAsOperand (operand : Expr) {checked : Bool} (hs : s.flags.Plain checked) :
    (bindAsOperand scope operand s).2.flags.Plain checked := by
  cases operand with
  | member target member memberSpan =>
      exact Follows.plain ((follows_denote target checked).bind fun denoted =>
        .bindFlagless (flagless_memberOf _ _ _ _) fun _ => (flagless_toValue _).follows) hs
  | _ => exact (follows_bind _ checked).plain hs

theorem bind_guarded (checked : Bool) (operand : Expr) :
    bind scope (.guarded checked operand span) =
      (do toValue scope (← inScope (·.enterWith .checkedScope checked) (denote scope operand))) := by
  rw [bind, denote]

-- A call reports what its callee reports, bound behind the arguments, and what calling it reports
-- then. An object is called without its member being read, which reports nothing either way.
theorem diagnostics_bind_call (callee : Expr) (arguments : List Expr) :
    let given := bindAll scope arguments s
    let denoted := denote scope callee given.2
    (bind scope (.call callee arguments span) s).2.diagnostics =
      (callDenoted scope callee denoted.1 given.1 span denoted.2).2.diagnostics := by
  dsimp only
  cases callee with
  | member target name calleeSpan =>
      have hcallee : denote scope (.member target name calleeSpan) =
          (do memberOf scope (← denote scope target) name calleeSpan false) := by
        rw [denote]
      rw [hcallee]
      conv => lhs; unfold bind; rw [denote]
      simp only [bind_apply]
      generalize denote scope target (bindAll scope arguments s).2 = run
      obtain ⟨denoted, after⟩ := run
      cases denoted with
      | value receiver =>
          dsimp only
          split
          · rename_i hobject
            simp only [memberOf, instanceMember, if_neg hobject.2, if_pos hobject.1]
            rfl
          · rfl
      | _ => rfl
  | _ =>
      conv => lhs; unfold bind; rw [denote]
      rfl

-- A node with an operand that has failed reports nothing that its operands have not reported, but
-- for callees that cannot be called and names of types that there are not.
theorem bind_reports_no_more_iff (e : Expr) (s : Compilation)
    (hdeclared : ScopeFlags.declared.hasAll s.flags)
    (hprobing : s.flags.hasAll .probingMode = false)
    (h : (bindOperands scope e s).1.any (·.isError)) :
    (bind scope e s).2.diagnostics = (bindOperands scope e s).2.diagnostics ↔
      reportsAnyway scope (bindOperands scope e s).2 e (bindOperands scope e s).1 = false := by
  have hs : s.flags.Plain (s.flags.hasAll .checkedScope) := ⟨hdeclared, hprobing, rfl⟩
  cases e with
  | literal value literalSpan => cases h
  | name ident nameSpan => cases h
  | member target name memberSpan =>
      have htarget : (denote scope target s).1.isError = true := by simpa [bindOperands] using h
      refine iff_of_true ?_ rfl
      rw [bind, denote, bind_apply, bind_apply, memberOf_of_isError htarget]
      rfl
  | index target arguments indexSpan =>
      have hvalues : ((bind scope target s).1 ::
          (bindAll scope arguments (bind scope target s).2).1).any (·.isError) = true :=
        (any_isError_values _).symm.trans h
      refine iff_of_true ?_ rfl
      rw [bind_index, bind_apply, bind_apply, bindIndex_of_isError hvalues]
      rfl
  | unary op operand unarySpan =>
      have hoperand : (bind scope operand s).1.isError = true := by simpa [bindOperands] using h
      refine iff_of_true ?_ rfl
      rw [bind_unary, bind_apply, bindUnary_of_isError hoperand]
      rfl
  | binary op left right binarySpan =>
      have hvalues : [(bind scope left s).1, (bind scope right (bind scope left s).2).1].any
          (·.isError) = true := (any_isError_values _).symm.trans h
      simp only [List.any_cons, List.any_nil, Bool.or_false] at hvalues
      refine iff_of_true ?_ rfl
      rw [bind_binary, bind_apply, bind_apply, bindBinary_of_isError hvalues]
      rfl
  | cast name operand castSpan =>
      have hoperand : (bind scope operand s).1.isError = true := by simpa [bindOperands] using h
      have hafter : (bind scope operand s).2.flags.Plain _ := (follows_bind operand _).plain hs
      rw [bind_cast, bind_apply]
      exact diagnostics_bindCast hoperand name hafter.probingMode
  | asType operand name asSpan =>
      have hoperand : (bindAsOperand scope operand s).1.isError = true := by
        simpa [bindOperands] using h
      have hafter : (bindAsOperand scope operand s).2.flags.Plain _ :=
        plain_bindAsOperand operand hs
      rw [bind_asType, bind_apply]
      exact diagnostics_bindAsType hoperand name hafter.probingMode
  | guarded checked operand guardedSpan =>
      let body := inScope (·.enterWith .checkedScope checked) (denote scope operand)
      have hoperand : (body s).1.isError = true := by simpa [bindOperands] using h
      refine iff_of_true ?_ rfl
      rw [bind_guarded, bind_apply, diagnostics_toValue_of_isError hoperand]
      rfl
  | call callee arguments callSpan =>
      let given := bindAll scope arguments s
      have hgiven : given.2.flags.Plain _ := (follows_bindAll arguments _).plain hs
      have hafter : (denote scope callee given.2).2.flags.Plain _ :=
        (follows_denote callee _).plain hgiven
      rw [diagnostics_bind_call]
      refine diagnostics_callDenoted ?_ hafter.probingMode
      have hoperands := (Bool.or_eq_true _ _).mp h
      exact hoperands.imp_right (any_isError_values _).symm.trans

def missingName : Expr := .name ⟨"missing", .none⟩ .none

def unknownType : TypeName := .mk ⟨⟨"Nope", .none⟩, []⟩ [] false .none

theorem sum_reports_no_more :
    let scope : BindingScope := ⟨.ofTable .initial, .empty, []⟩
    let sum : Expr := .binary .add missingName (.literal (.int 1 .none) .none) .none
    (bind scope sum ⟨.empty, .empty, []⟩).2.diagnostics =
        (bindOperands scope sum ⟨.empty, .empty, []⟩).2.diagnostics ↔
      reportsAnyway scope (bindOperands scope sum ⟨.empty, .empty, []⟩).2 sum
        (bindOperands scope sum ⟨.empty, .empty, []⟩).1 = false :=
  bind_reports_no_more_iff _ _ (by decide) (by decide) (by decide +kernel)

-- Whether a failed operand of an expression is not all that is reported for it.
def reportsMore (e : Expr) : Bool :=
  let scope : BindingScope := ⟨.ofTable .initial, .empty, []⟩
  let operands := bindOperands scope e ⟨.empty, .empty, []⟩
  operands.1.any (·.isError) &&
    (bind scope e ⟨.empty, .empty, []⟩).2.diagnostics ≠ operands.2.diagnostics

-- A number that is called with a failed argument, and a failed operand of an unknown type.
theorem number_and_cast_report_more :
    reportsMore (.call (.literal (.int 5 .none) .none) [missingName] .none) ∧
      reportsMore (.cast unknownType missingName .none) ∧
      reportsMore (.asType missingName unknownType .none) := by
  decide +kernel

end Binding

end EventScript
