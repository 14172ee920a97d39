import EventScript.Binding.Calls
import EventScript.Binding.Operators
import EventScript.Proofs.Erasure.Naming

namespace EventScript.Binding

def GroupTarget.eraseSpans : GroupTarget → GroupTarget
  | static => static
  | instanceOf receiver => instanceOf receiver.eraseSpans
  | extension receiver => extension receiver.eraseSpans

namespace MethodGroup

def eraseSpans (group : MethodGroup) : MethodGroup :=
  ⟨group.name, group.target.eraseSpans, group.methods, .none⟩

@[simp] theorem receiverType?_eraseSpans (group : MethodGroup) :
    group.eraseSpans.receiverType? = group.receiverType? := by
  obtain ⟨name, target, methods, span⟩ := group
  cases target with
  | static => rfl
  | instanceOf receiver => exact congrArg some receiver.type_eraseSpans
  | extension receiver => exact congrArg some receiver.type_eraseSpans

theorem arguments_eraseSpans (group : MethodGroup) (given : List BoundExpr) :
    group.eraseSpans.arguments (given.map BoundExpr.eraseSpans) =
      (group.arguments given).map BoundExpr.eraseSpans := by
  obtain ⟨name, target, methods, span⟩ := group
  cases target <;> rfl

end MethodGroup

open Compiling

variable {scope : BindingScope}

-- Conversions and operators

theorem erases_applyConversion (e : BoundExpr) (conversion : Conversion) (descriptor : Descriptor) :
    Erases BoundExpr.eraseSpans (applyConversion scope e conversion descriptor)
      (applyConversion scope e.eraseSpans conversion descriptor) := by
  unfold applyConversion
  rw [e.type_eraseSpans, e.span_eraseSpans]
  split
  · exact .pure rfl
  split
  · exact .refuse
  · exact Erases.isChecked.bindSame fun checked => .node rfl

theorem erases_convertBy (e : BoundExpr) (descriptor : Descriptor) :
    Erases BoundExpr.eraseSpans (convertBy scope e descriptor)
      (convertBy scope e.eraseSpans descriptor) := by
  unfold convertBy
  rw [e.type_eraseSpans]
  refine (Erases.search _).bindSame fun found => ?_
  cases found with
  | none => exact .pure rfl
  | some conversion => exact erases_applyConversion _ _ _

theorem erases_convert (e : BoundExpr) (target : TypeId) (mode : ConversionMode) :
    Erases BoundExpr.eraseSpans (convert scope e target mode)
      (convert scope e.eraseSpans target mode) := by
  unfold convert
  rw [e.isError_eraseSpans]
  split
  · exact .pure rfl
  · exact (Erases.descriptor _).bindSame fun descriptor => erases_convertBy _ _

theorem erases_convertsImplicitly (source target : TypeId) :
    Erases id (convertsImplicitly scope source target) (convertsImplicitly scope source target) :=
  Erases.search _

theorem erases_unaryType (op : UnaryOperator) (operand : TypeId) :
    Erases id (unaryType scope op operand) (unaryType scope op operand) := by
  cases op with
  | not => exact (erases_convertsImplicitly _ _).bindSame fun converts => .pure rfl
  | negate => exact .pure rfl
  | plus => exact .pure rfl

theorem erases_binarySignature (op : BinaryOperator) (left right : TypeId) :
    Erases id (binarySignature scope op left right) (binarySignature scope op left right) := by
  unfold binarySignature
  split
  · exact .pure rfl
  split
  · refine (erases_convertsImplicitly _ _).bindSame fun converts => ?_
    cases converts with
    | false => exact .pure rfl
    | true =>
        refine (erases_convertsImplicitly _ _).bindSame fun converts => ?_
        cases converts <;> exact .pure rfl
  split
  · exact .pure rfl
  · split <;> exact .pure rfl

theorem erases_bindUnary (op : UnaryOperator) (operand : BoundExpr) (span : Span) :
    Erases BoundExpr.eraseSpans (bindUnary scope op operand span)
      (bindUnary scope op operand.eraseSpans .none) := by
  unfold bindUnary
  rw [operand.isError_eraseSpans, operand.type_eraseSpans]
  split
  · exact .failed
  refine (Erases.descriptor _).bindSame fun descriptor => ?_
  refine Erases.isChecked.bindSame fun checked => ?_
  split
  · exact .node rfl
  refine (erases_unaryType _ _).bindSame fun found => ?_
  cases found with
  | some type =>
      refine (erases_convert _ _ _).bind fun converted => .node rfl
  | none => exact .refuse

theorem erases_bindBinary (op : BinaryOperator) (left right : BoundExpr) (span : Span) :
    Erases BoundExpr.eraseSpans (bindBinary scope op left right span)
      (bindBinary scope op left.eraseSpans right.eraseSpans .none) := by
  unfold bindBinary
  rw [left.isError_eraseSpans, right.isError_eraseSpans, left.type_eraseSpans,
    right.type_eraseSpans]
  split
  · exact .failed
  refine (erases_binarySignature _ _ _).bindSame fun found => ?_
  cases found with
  | none => exact .refuse
  | some signature =>
      refine (erases_convert _ _ _).bind fun left => (erases_convert _ _ _).bind fun right => ?_
      refine (Erases.descriptor _).bindSame fun descriptor => ?_
      refine Erases.isChecked.bindSame fun checked => .node rfl

-- Calls

theorem erases_extensionGroup (receiver : BoundExpr) (name : String) (span : Span) :
    Erases (Option.map MethodGroup.eraseSpans) (extensionGroup scope receiver name span)
      (extensionGroup scope receiver.eraseSpans name .none) := by
  unfold extensionGroup
  rw [receiver.type_eraseSpans]
  refine (Erases.search _).bindSame fun methods => ?_
  cases methods <;> exact .pure rfl

theorem erases_selectOverload (group : MethodGroup) (arguments : List TypeId) :
    Erases id (selectOverload scope group arguments)
      (selectOverload scope group.eraseSpans arguments) := by
  have hchoose (levels : List NarrowingLevel) :
      chooseAt scope group.eraseSpans arguments levels = chooseAt scope group arguments levels := by
    induction levels with
    | nil => rfl
    | cons level levels ih =>
        rw [chooseAt, chooseAt, group.receiverType?_eraseSpans, ih]
        rfl
  rw [selectOverload, selectOverload, hchoose]
  exact (Erases.search _).inScope

theorem erases_convertArguments (parameters : List TypeId) (arguments : List BoundExpr) :
    Erases (List.map BoundExpr.eraseSpans) (convertArguments scope parameters arguments)
      (convertArguments scope parameters (arguments.map BoundExpr.eraseSpans)) := by
  induction parameters generalizing arguments with
  | nil => cases arguments <;> exact .pure rfl
  | cons parameter parameters ih =>
      cases arguments with
      | nil => exact .pure rfl
      | cons argument arguments =>
          have hcons (first : BoundExpr) :
              Erases (List.map BoundExpr.eraseSpans)
                (do return first :: (← convertArguments scope parameters arguments))
                (do return first.eraseSpans ::
                  (← convertArguments scope parameters (arguments.map BoundExpr.eraseSpans))) :=
            (ih arguments).bind fun rest => .pure rfl
          rw [List.map_cons, convertArguments, convertArguments]
          split
          · exact hcons argument
          · exact (erases_convert _ _ _).bind hcons

theorem erases_buildCall (group : MethodGroup) (method : MethodId) (given : List BoundExpr)
    (span : Span) :
    Erases BoundExpr.eraseSpans (buildCall scope group method given span)
      (buildCall scope group.eraseSpans method (given.map BoundExpr.eraseSpans) .none) := by
  unfold buildCall
  rw [group.receiverType?_eraseSpans, group.arguments_eraseSpans]
  refine (erases_convertArguments _ _).bind fun converted => ?_
  split
  · exact .node rfl
  · obtain ⟨name, target, methods, groupSpan⟩ := group
    cases target <;> exact .node rfl

theorem erases_callGroupOr (group : MethodGroup) (given : List BoundExpr) (span : Span)
    {otherwise instead : Compiling BoundExpr} (h : Erases BoundExpr.eraseSpans otherwise instead) :
    Erases BoundExpr.eraseSpans (callGroupOr scope group given span otherwise)
      (callGroupOr scope group.eraseSpans (given.map BoundExpr.eraseSpans) .none instead) := by
  unfold callGroupOr
  rw [group.arguments_eraseSpans, BoundExpr.types_eraseSpans]
  refine (erases_selectOverload _ _).bindSame fun overload => ?_
  cases overload with
  | found method => exact erases_buildCall _ _ _ _
  | ambiguous first second => exact .refuse
  | noMatch => exact h

theorem erases_refuseCall (group : MethodGroup) (given : List BoundExpr) (span : Span) :
    Erases BoundExpr.eraseSpans (refuseCall scope group given span)
      (refuseCall scope group.eraseSpans (given.map BoundExpr.eraseSpans) .none) := by
  unfold refuseCall
  rw [List.length_map]
  exact .refuse

theorem erases_callGroup (group : MethodGroup) (given : List BoundExpr) (span : Span) :
    Erases BoundExpr.eraseSpans (callGroup scope group given span)
      (callGroup scope group.eraseSpans (given.map BoundExpr.eraseSpans) .none) := by
  refine erases_callGroupOr _ _ _ ?_
  obtain ⟨name, target, methods, groupSpan⟩ := group
  cases target with
  | instanceOf receiver =>
      refine (erases_extensionGroup _ _ _).bind fun found => ?_
      cases found with
      | none => exact erases_refuseCall _ _ _
      | some extensions => exact erases_callGroupOr _ _ _ (erases_refuseCall _ _ _)
  | static => exact erases_refuseCall _ _ _
  | extension receiver => exact erases_refuseCall _ _ _

end EventScript.Binding
