import EventScript.Proofs.Binding.Calls
import EventScript.Proofs.Conversion.Success
import EventScript.Proofs.Failing.Tree

namespace EventScript.Binding

open BoundExpr Compilation Compiling Conversion MemberSearch

variable {scope : BindingScope}

-- Conversions

theorem gives_applyConversion {e : BoundExpr} (he : e.Stands) (conversion : Conversion)
    (descriptor : Descriptor) :
    Gives (Ready scope.types) (applyConversion scope e conversion descriptor) fun converted =>
      converted.PassesOn ∧ (conversion.isError = false → converted.Stands) := by
  unfold applyConversion
  split
  · exact .pure ⟨he.passesOn, fun _ => he⟩
  split
  · rename_i herror
    refine .giveUp ⟨.failed _, fun hnone => ?_⟩
    rw [hnone] at herror
    cases herror
  · refine .andThen Ensures.isChecked fun checked => .pure ?_
    have hnode : (BoundExpr.node (.convert conversion descriptor checked) conversion.resultType
        e.span [e]).Stands := .node rfl (by simpa using he)
    exact ⟨hnode.passesOn, fun _ => hnode⟩

theorem gives_convertBy {e : BoundExpr} (he : e.Stands) (descriptor : Descriptor) :
    Gives (Ready scope.types) (convertBy scope e descriptor) fun converted => converted.PassesOn ∧
      ((∀ conversion ∈ (descriptor.conversion? scope.types e.type).answer,
        conversion.isError = false) → converted.Stands) := by
  unfold convertBy
  refine (Gives.search (descriptor.steady_conversion? e.type).finds).bind fun found hf => ?_
  cases found with
  | none => exact .pure ⟨he.passesOn, fun _ => he⟩
  | some conversion =>
      refine (gives_applyConversion he conversion descriptor).imp fun converted hc => ?_
      exact ⟨hc.1, fun hall => hc.2 (hall conversion (hf ▸ rfl))⟩

theorem gives_convert {e : BoundExpr} (he : e.PassesOn) (target : TypeId) (mode : ConversionMode) :
    Gives (Ready scope.types) (convert scope e target mode) PassesOn := by
  unfold convert
  split
  · exact .pure he
  · rename_i hstands
    refine (Gives.descriptor _).bind fun descriptor _ => ?_
    exact (gives_convertBy ⟨he, by simpa using hstands⟩ descriptor).imp fun _ hc => hc.1

-- An expression that has not failed goes on to stand where its type can be converted.
theorem gives_convert_of_convertible {e : BoundExpr} (he : e.Stands) {target : TypeId}
    (hc : Convertible scope.types e.type target) :
    Gives (Ready scope.types) (convert scope e target .implicitCast) Stands := by
  unfold convert
  rw [he.isError_eq]
  refine (Gives.descriptor _).bind fun descriptor hk => ?_
  refine (gives_convertBy he descriptor).imp fun converted h => h.2 fun conversion hfound => ?_
  rw [Descriptor.answer_conversion?_convert hk] at hfound
  obtain rfl := Option.some.inj hfound
  rw [Conversion.isError, Bool.and_eq_false_iff]
  exact .inl hc

-- Operators

theorem gives_convertsImplicitly (source target : TypeId) :
    Gives (Ready scope.types) (convertsImplicitly scope source target) fun possible =>
      possible = true → Convertible scope.types source target :=
  .search (finds_isPossible (by decide))

theorem gives_unaryType (hg : TypeTable.initial.GrowsTo scope.types) (op : UnaryOperator)
    (operand : TypeId) :
    Gives (Ready scope.types) (unaryType scope op operand) fun found =>
      ∀ type ∈ found, Convertible scope.types operand type := by
  have hsigned : ∀ type ∈ ((numericOperand? scope.types operand).bind (signedResult? op)).map
      TypeId.numeric, Convertible scope.types operand type := by
    intro type ht
    obtain ⟨result, hresult, rfl⟩ := Option.map_eq_some_iff.mp ht
    obtain ⟨kind, hk, hs⟩ := Option.bind_eq_some_iff.mp hresult
    exact convertible_of_numericOperand? hg hk (widensTo_of_signedResult? hs)
  cases op with
  | not =>
      refine (gives_convertsImplicitly operand .boolean).bind fun possible hp => .pure ?_
      intro type ht
      split at ht
      · rename_i hpossible
        exact Option.some.inj ht ▸ hp hpossible
      · cases ht
  | negate => exact .pure hsigned
  | plus => exact .pure hsigned

-- The operands can become what a signature asks of them, unless they are joined to a text.
def BinarySignature.Attainable (t : TypeTable) (op : BinaryOperator) (left right : TypeId)
    (signature : BinarySignature) : Prop :=
  (Convertible t left signature.left ∧ Convertible t right signature.right) ∨
    (op = .add ∧ signature.result = .string)

theorem gives_binarySignature (hg : TypeTable.initial.GrowsTo scope.types) (op : BinaryOperator)
    (left right : TypeId) :
    Gives (Ready scope.types) (binarySignature scope op left right) fun found =>
      ∀ signature ∈ found, signature.Attainable scope.types op left right := by
  have hsome (signature : BinarySignature)
      (h : signature.Attainable scope.types op left right) :
      ∀ found ∈ some signature, found.Attainable scope.types op left right := by
    intro found hf
    rwa [← Option.some.inj hf]
  unfold binarySignature
  split
  · exact .pure (hsome _ (.inl ⟨convertible_self left, convertible_self right⟩))
  split
  · refine (gives_convertsImplicitly left .boolean).bind fun possible hl => ?_
    cases possible with
    | false => exact .pure nofun
    | true =>
        refine (gives_convertsImplicitly right .boolean).bind fun possible hr => ?_
        cases possible with
        | false => exact .pure nofun
        | true => exact .pure (hsome _ (.inl ⟨hl rfl, hr rfl⟩))
  split
  · rename_i hadd
    exact .pure (hsome _ (.inr ⟨hadd.1, rfl⟩))
  split
  · rename_i leftKind rightKind hl hr
    exact .pure fun signature hs => .inl (convertible_of_numericSignature? hg hl hr hs)
  · split
    · exact .pure fun signature hs => .inl (convertible_of_equality? hs)
    · exact .pure nofun

theorem gives_bindUnary (hg : TypeTable.initial.GrowsTo scope.types) (op : UnaryOperator)
    {operand : BoundExpr} (ho : operand.PassesOn) (span : Span) :
    Gives (Ready scope.types) (bindUnary scope op operand span) PassesOn := by
  unfold bindUnary
  split
  · exact .pure (.failed span)
  rename_i hstands
  replace ho : operand.Stands := ⟨ho, by simpa using hstands⟩
  refine (Gives.descriptor _).bind fun descriptor _ => ?_
  refine .andThen Ensures.isChecked fun checked => ?_
  split
  · exact .pure (Stands.node rfl (by simpa using ho)).passesOn
  refine (gives_unaryType hg op operand.type).bind fun found hf => ?_
  cases found with
  | none => exact .giveUp (.failed span)
  | some type =>
      refine (gives_convert_of_convertible ho (hf type rfl)).bind fun converted hc => ?_
      exact .pure (Stands.node rfl (by simpa using hc)).passesOn

theorem gives_bindBinary (hg : TypeTable.initial.GrowsTo scope.types) (op : BinaryOperator)
    {left right : BoundExpr} (hl : left.PassesOn) (hr : right.PassesOn) (span : Span) :
    Gives (Ready scope.types) (bindBinary scope op left right span) PassesOn := by
  unfold bindBinary
  split
  · exact .pure (.failed span)
  rename_i hstands
  simp only [Bool.or_eq_true, not_or, Bool.not_eq_true] at hstands
  refine (gives_binarySignature hg op left.type right.type).bind fun found hf => ?_
  cases found with
  | none => exact .giveUp (.failed span)
  | some signature =>
      rcases hf signature rfl with ⟨hleft, hright⟩ | ⟨rfl, hresult⟩
      · refine (gives_convert_of_convertible ⟨hl, hstands.1⟩ hleft).bind fun first hfirst => ?_
        refine (gives_convert_of_convertible ⟨hr, hstands.2⟩ hright).bind fun second hsecond => ?_
        refine (Gives.descriptor _).bind fun descriptor _ => ?_
        refine .andThen Ensures.isChecked fun checked => .pure ?_
        exact (Stands.node rfl (by simpa using ⟨hfirst, hsecond⟩)).passesOn
      · refine (gives_convert hl signature.left .implicitCast).bind fun first hfirst => ?_
        refine (gives_convert hr signature.right .implicitCast).bind fun second hsecond => ?_
        refine (Gives.descriptor _).bind fun descriptor _ => ?_
        refine .andThen Ensures.isChecked fun checked => .pure ?_
        rw [hresult]
        exact .concatenation hfirst hsecond

-- Calls

-- A closed parameter only takes what can be converted to it.
def FitsClosed (t : TypeTable) (parameter argument : TypeId) : Prop :=
  t.mentionsParameter parameter = false → Convertible t argument parameter

theorem accepting_fitsClosed {level : NarrowingLevel} (hl : level ∈ [.none, .one]) :
    Accepting scope (MemberCache.Sound scope.types) (FitsClosed scope.types) level := by
  intro parameter argument
  unfold accepts
  split
  · rename_i hopen
    refine .pure fun _ hclosed => ?_
    rw [hopen] at hclosed
    cases hclosed
  · exact (finds_isPossible hl).imp fun _ hp hfits _ => hp hfits

-- What a group is called on has not failed.
def MethodGroup.Stands (group : MethodGroup) : Prop :=
  ∀ receiver ∈ group.target.receiver?, receiver.Stands

theorem MethodGroup.Stands.arguments {group : MethodGroup} {given : List BoundExpr}
    (h : group.Stands) (hs : ∀ a ∈ given, a.Stands) : ∀ a ∈ group.arguments given, a.Stands := by
  obtain ⟨name, target, methods, span⟩ := group
  cases target with
  | extension receiver => exact List.forall_mem_cons.mpr ⟨h receiver rfl, hs⟩
  | _ => exact hs

theorem gives_extensionGroup {receiver : BoundExpr} (h : receiver.Stands) (name : String)
    (span : Span) :
    Gives (Ready scope.types) (extensionGroup scope receiver name span) fun found =>
      ∀ group ∈ found, group.Stands := by
  have hsteady : Steady scope.types
      (scope.names.extensionMethods scope.runtime receiver.type name) :=
    scope.names.steady_extensionMethods receiver.type name
  unfold extensionGroup
  refine (Gives.search hsteady.finds).bind fun methods _ => ?_
  split
  · exact .pure nofun
  · refine .pure fun group hgroup target htarget => ?_
    obtain rfl := Option.some.inj hgroup
    rwa [← Option.some.inj htarget]

theorem gives_selectOverload (group : MethodGroup) (arguments : List TypeId) :
    Gives (Ready scope.types) (selectOverload scope group arguments) fun overload =>
      ∀ method, overload = .found method → List.Forall₂ (FitsClosed scope.types)
        (parameterTypes scope.types method group.receiverType?) arguments := by
  have haccepting : ∀ level ∈ [.none, .one],
      Accepting scope (MemberCache.Sound scope.types) (FitsClosed scope.types) level :=
    fun level hl => accepting_fitsClosed hl
  refine .inProbingScope ((finds_chooseAt group arguments haccepting).imp fun _ h method hm => ?_)
  exact (h method hm).2

theorem gives_convertArguments {parameters : List TypeId} {arguments : List BoundExpr}
    (hs : ∀ a ∈ arguments, a.Stands)
    (hf : List.Forall₂ (FitsClosed scope.types) parameters (arguments.map (·.type))) :
    Gives (Ready scope.types) (convertArguments scope parameters arguments) fun converted =>
      ∀ e ∈ converted, e.Stands := by
  induction parameters generalizing arguments with
  | nil => exact .pure nofun
  | cons parameter parameters ih =>
      cases arguments with
      | nil => exact .pure nofun
      | cons argument arguments =>
          obtain ⟨hargument, harguments⟩ := List.forall_mem_cons.mp hs
          obtain ⟨hfit, hfits⟩ := List.forall₂_cons.mp hf
          have hfirst : Gives (Ready scope.types) (if scope.types.mentionsParameter parameter then
              pure argument else convert scope argument parameter .implicitCast) Stands := by
            split
            · exact .pure hargument
            · rename_i hclosed
              exact gives_convert_of_convertible hargument (hfit (by simpa using hclosed))
          rw [convertArguments_cons]
          refine hfirst.bind fun first h => ?_
          refine (ih harguments hfits).bind fun rest hrest => .pure ?_
          exact List.forall_mem_cons.mpr ⟨h, hrest⟩

section Group

variable {group : MethodGroup} {given : List BoundExpr} (span : Span)

theorem gives_buildCall (hgroup : group.Stands) (hs : ∀ a ∈ given, a.Stands) {method : MethodId}
    (hf : List.Forall₂ (FitsClosed scope.types)
      (parameterTypes scope.types method group.receiverType?)
      ((group.arguments given).map (·.type))) :
    Gives (Ready scope.types) (buildCall scope group method given span) PassesOn := by
  unfold buildCall
  refine (gives_convertArguments (hgroup.arguments hs) hf).bind fun converted hc => ?_
  split
  · exact .pure (Stands.node rfl hc).passesOn
  split
  · rename_i receiver ht
    have hreceiver : receiver.Stands := hgroup receiver (by rw [ht]; rfl)
    exact .pure (Stands.node rfl (List.forall_mem_cons.mpr ⟨hreceiver, hc⟩)).passesOn
  · exact .pure (Stands.node rfl hc).passesOn

theorem gives_callGroupOr (hgroup : group.Stands) (hs : ∀ a ∈ given, a.Stands)
    {otherwise : Compiling BoundExpr} (ho : Gives (Ready scope.types) otherwise PassesOn) :
    Gives (Ready scope.types) (callGroupOr scope group given span otherwise) PassesOn := by
  unfold callGroupOr
  refine (gives_selectOverload group _).bind fun overload hm => ?_
  cases overload with
  | found method => exact gives_buildCall span hgroup hs (hm method rfl)
  | ambiguous first second => exact .giveUp (.failed span)
  | noMatch => exact ho

theorem gives_callGroup (hgroup : group.Stands) (hs : ∀ a ∈ given, a.Stands) :
    Gives (Ready scope.types) (callGroup scope group given span) PassesOn := by
  have hrefused (group : MethodGroup) :
      Gives (Ready scope.types) (refuseCall scope group given span) PassesOn := .giveUp (.failed span)
  unfold callGroup
  refine gives_callGroupOr span hgroup hs ?_
  split
  · rename_i receiver ht
    have hreceiver : receiver.Stands := hgroup receiver (by rw [ht]; rfl)
    refine (gives_extensionGroup hreceiver group.name group.span).bind fun found hf => ?_
    cases found with
    | some extensions => exact gives_callGroupOr span (hf extensions rfl) hs (hrefused extensions)
    | none => exact hrefused group
  · exact hrefused group

end Group

end EventScript.Binding
