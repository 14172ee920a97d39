import EventScript.Proofs.Binding.Converting
import EventScript.Proofs.Binding.Overloads

namespace EventScript

open Binding Compiling MemberSearch

theorem NameScope.isUsableExtension_of_mem_extensionMethods {names : NameScope} {r : Runtime}
    {receiver : TypeId} {name : String} {method : MethodId} (cache : MemberCache)
    (h : method ∈ (names.extensionMethods r receiver name cache).1) :
    (r.types.method method).isUsableExtension = true := by
  simp only [extensionMethods, MemberSearch.bind_apply, MemberSearch.pure_apply, List.mem_filter,
    extends?, Bool.and_eq_true] at h
  exact h.2.1

namespace Binding

-- A group whose methods can be called on its target.
def MethodGroup.Typed (t : TypeTable) (parameters : List (String × TypeId))
    (group : MethodGroup) : Prop :=
  match group.target with
  | .static => ∀ id ∈ group.methods,
      (t.method id).isPublic = true ∧ (t.method id).isStatic = true
  | .instanceOf receiver => receiver.WellTyped t parameters ∧ ∀ id ∈ group.methods,
      (t.method id).isPublic = true ∧ (t.method id).isStatic = false
  | .extension receiver => receiver.WellTyped t parameters ∧ ∀ id ∈ group.methods,
      (t.method id).isUsableExtension = true

variable {scope : BindingScope} {count : Nat}

theorem MethodGroup.Typed.wellTyped_arguments {t : TypeTable}
    {parameters : List (String × TypeId)} {group : MethodGroup} {given : List BoundExpr}
    (hg : group.Typed t parameters) (h : ∀ e ∈ given, e.WellTyped t parameters) :
    ∀ e ∈ group.arguments given, e.WellTyped t parameters := by
  unfold MethodGroup.Typed at hg
  unfold MethodGroup.arguments
  cases ht : group.target with
  | static => simpa only [ht] using h
  | instanceOf receiver => simpa only [ht] using h
  | extension receiver =>
      simp only [ht] at hg ⊢
      exact List.forall_mem_cons.mpr ⟨hg.1, h⟩

theorem ensures_methodsNamed (type : TypeId) (name : String) (isStatic : Bool) :
    Ensures scope.types count (methodsNamed scope type name isStatic) fun methods =>
      ∀ id ∈ methods, (scope.types.method id).isPublic = true ∧
        (scope.types.method id).isStatic = isStatic := by
  refine (Ensures.search (steady_lookup type name)).bind fun methods => .pure fun _ id hm => ?_
  simpa using (List.mem_filter.mp hm).2

theorem ensures_extensionGroup (receiver : BoundExpr) (name : String) (span : Span) :
    Ensures scope.types count (extensionGroup scope receiver name span) fun found =>
      receiver.WellTyped scope.types scope.parameters →
      ∀ group ∈ found, group.Typed scope.types scope.parameters := by
  have hsteady : Steady scope.types
      (scope.names.extensionMethods scope.runtime receiver.type name) :=
    scope.names.steady_extensionMethods receiver.type name
  refine (Ensures.search hsteady).bind fun methods => ?_
  cases methods with
  | nil => exact .pure fun _ _ _ hg => by cases hg
  | cons method methods =>
      refine .pure fun ha hr group hg => ?_
      obtain rfl := Option.some.inj hg
      refine ⟨hr, fun id hid => ?_⟩
      exact NameScope.isUsableExtension_of_mem_extensionMethods .empty (ha ▸ hid)

-- What converting arguments one by one makes of them.
structure ArgumentsConverted (t : TypeTable) (parameters : List (String × TypeId))
    (types : List TypeId) (arguments converted : List BoundExpr) : Prop where
  wellTyped : ∀ e ∈ converted, e.WellTyped t parameters
  fits : List.Forall₂ (Fits t) types converted
  receivers : List.Forall₂ (fun argument e => IsReceiver argument.type e) arguments converted

theorem ArgumentsConverted.cons {t : TypeTable} {parameters : List (String × TypeId)}
    {type : TypeId} {types : List TypeId} {argument e : BoundExpr}
    {arguments converted : List BoundExpr} (he : e.WellTyped t parameters) (hf : Fits t type e)
    (hr : IsReceiver argument.type e)
    (h : ArgumentsConverted t parameters types arguments converted) :
    ArgumentsConverted t parameters (type :: types) (argument :: arguments) (e :: converted) :=
  ⟨List.forall_mem_cons.mpr ⟨he, h.wellTyped⟩, .cons hf h.fits, .cons hr h.receivers⟩

-- One argument: it is converted to a closed parameter and stays as it is for an open one.
theorem ensures_convertArgument (parameter : TypeId) (argument : BoundExpr) :
    Ensures scope.types count
      (if scope.types.mentionsParameter parameter then pure argument
        else convert scope argument parameter .implicitCast) fun e =>
      argument.WellTyped scope.types scope.parameters →
      FitsOpen scope.types parameter argument.type →
      e.WellTyped scope.types scope.parameters ∧ Fits scope.types parameter e ∧
        IsReceiver argument.type e := by
  split
  · rename_i hm
    refine .pure fun ha hf => ⟨ha, ?_, .inl rfl⟩
    rw [Fits, if_pos hm]
    exact hf hm
  · rename_i hm
    refine (ensures_convert argument parameter rfl).imp fun e hc ha _ => ?_
    refine ⟨(hc ha).wellTyped, ?_, (hc ha).isReceiver⟩
    rw [Fits, if_neg hm]
    exact (hc ha).type_eq

theorem convertArguments_cons (type : TypeId) (types : List TypeId) (argument : BoundExpr)
    (arguments : List BoundExpr) :
    convertArguments scope (type :: types) (argument :: arguments) =
      (if scope.types.mentionsParameter type then pure argument
        else convert scope argument type .implicitCast) >>= fun first => do
      let rest ← convertArguments scope types arguments
      return first :: rest := by
  rw [convertArguments]
  split <;> rfl

theorem ensures_convertArguments (types : List TypeId) (arguments : List BoundExpr) :
    Ensures scope.types count (convertArguments scope types arguments) fun converted =>
      (∀ e ∈ arguments, e.WellTyped scope.types scope.parameters) →
      List.Forall₂ (FitsOpen scope.types) types (arguments.map (·.type)) →
      ArgumentsConverted scope.types scope.parameters types arguments converted := by
  induction types generalizing arguments with
  | nil =>
      refine .pure fun _ hf => ?_
      obtain rfl := List.map_eq_nil_iff.mp (List.forall₂_nil_left_iff.mp hf)
      exact ⟨by simp, .nil, .nil⟩
  | cons type types ih =>
      cases arguments with
      | nil => exact .pure fun _ hf => by cases hf
      | cons argument arguments =>
          rw [convertArguments_cons]
          refine (ensures_convertArgument type argument).bind fun e => ?_
          refine (ih arguments).bind fun converted => .pure fun hrest hfirst hw hf => ?_
          obtain ⟨hargument, harguments⟩ := List.forall_mem_cons.mp hw
          cases hf with
          | cons hfit hfits =>
              obtain ⟨he, hfit, hr⟩ := hfirst hargument hfit
              exact (hrest harguments hfits).cons he hfit hr

-- What has to hold where a method of a group is called with arguments.
structure Callable (t : TypeTable) (parameters : List (String × TypeId)) (group : MethodGroup)
    (method : MethodId) (given : List BoundExpr) : Prop where
  typed : group.Typed t parameters
  wellTyped : ∀ e ∈ given, e.WellTyped t parameters
  mem : method ∈ group.methods
  fits : List.Forall₂ (FitsOpen t) (parameterTypes t method group.receiverType?)
    ((group.arguments given).map (·.type))

namespace Callable

variable {t : TypeTable} {parameters : List (String × TypeId)} {group : MethodGroup}
  {method : MethodId} {given converted : List BoundExpr}

theorem isPublic (h : Callable t parameters group method given) :
    (t.method method).isPublic = true := by
  have hg := h.typed
  unfold MethodGroup.Typed at hg
  cases ht : group.target with
  | static =>
      simp only [ht] at hg
      exact (hg method h.mem).1
  | instanceOf receiver =>
      simp only [ht] at hg
      exact (hg.2 method h.mem).1
  | extension receiver =>
      simp only [ht, MethodDef.isUsableExtension, Bool.and_eq_true] at hg
      exact (hg.2 method h.mem).1.1

theorem callTyped (h : Callable t parameters group method given)
    (hc : ArgumentsConverted t parameters (parameterTypes t method group.receiverType?)
      (group.arguments given) converted) :
    CallTyped t method group.receiverType? converted
      (returnType t method group.receiverType?) :=
  ⟨h.isPublic, hc.fits, rfl⟩

-- Methods called on an instance are no extensions, since extensions are static.
theorem typed_extensionCall (h : Callable t parameters group method given)
    (hc : ArgumentsConverted t parameters (parameterTypes t method group.receiverType?)
      (group.arguments given) converted) (he : (t.method method).isExtension = true) :
    (BoundOp.extensionCall method).Typed t parameters converted
      (returnType t method group.receiverType?) := by
  have hstatic := (t.method method).isStatic_of_isExtension he
  refine ⟨hstatic, he, group.receiverType?, h.callTyped hc, fun id hid => ?_⟩
  have hg := h.typed
  unfold MethodGroup.Typed at hg
  cases ht : group.target with
  | static => simp [MethodGroup.receiverType?, GroupTarget.receiver?, ht] at hid
  | instanceOf receiver =>
      simp only [ht] at hg
      have hinstance := (hg.2 method h.mem).2
      rw [hstatic] at hinstance
      cases hinstance
  | extension receiver =>
      have hr := hc.receivers
      simp only [MethodGroup.arguments, ht] at hr
      obtain rfl : receiver.type = id := by
        simpa [MethodGroup.receiverType?, GroupTarget.receiver?, ht] using hid
      cases hr with
      | @cons _ first _ _ hfirst _ => exact ⟨first, rfl, hfirst⟩

theorem typed_call (h : Callable t parameters group method given)
    (hc : ArgumentsConverted t parameters (parameterTypes t method group.receiverType?)
      (group.arguments given) converted) (he : (t.method method).isExtension = false)
    {receiver : BoundExpr} (ht : group.target = .instanceOf receiver) :
    (BoundOp.call method).Typed t parameters (receiver :: converted)
      (returnType t method group.receiverType?) := by
  have hg := h.typed
  simp only [MethodGroup.Typed, ht] at hg
  have hr : group.receiverType? = some receiver.type := by
    simp [MethodGroup.receiverType?, GroupTarget.receiver?, ht]
  refine ⟨receiver, converted, rfl, (hg.2 method h.mem).2, he, ?_⟩
  rw [← hr]
  exact h.callTyped hc

theorem typed_staticCall (h : Callable t parameters group method given)
    (hc : ArgumentsConverted t parameters (parameterTypes t method group.receiverType?)
      (group.arguments given) converted) (he : (t.method method).isExtension = false)
    (ht : group.target = .static) :
    (BoundOp.staticCall method).Typed t parameters converted
      (returnType t method group.receiverType?) := by
  have hg := h.typed
  simp only [MethodGroup.Typed, ht] at hg
  have hr : group.receiverType? = none := by
    simp [MethodGroup.receiverType?, GroupTarget.receiver?, ht]
  refine ⟨(hg method h.mem).2, he, ?_⟩
  rw [← hr]
  exact h.callTyped hc

end Callable

theorem ensures_buildCall (group : MethodGroup) (method : MethodId) (given : List BoundExpr)
    (span : Span) :
    Ensures scope.types count (buildCall scope group method given span) fun e =>
      Callable scope.types scope.parameters group method given →
      e.WellTyped scope.types scope.parameters := by
  unfold buildCall
  refine (ensures_convertArguments _ _).bind fun converted => ?_
  dsimp only
  cases he : (scope.types.method method).isExtension with
  | true =>
      refine .pure fun hc h => ?_
      replace hc := hc (h.typed.wellTyped_arguments h.wellTyped) h.fits
      exact BoundExpr.wellTyped_node.mpr ⟨h.typed_extensionCall hc he, hc.wellTyped⟩
  | false =>
      simp only [Bool.false_eq_true, if_false]
      cases ht : group.target with
      | static =>
          refine .pure fun hc h => ?_
          replace hc := hc (h.typed.wellTyped_arguments h.wellTyped) h.fits
          exact BoundExpr.wellTyped_node.mpr ⟨h.typed_staticCall hc he ht, hc.wellTyped⟩
      | instanceOf receiver =>
          refine .pure fun hc h => ?_
          replace hc := hc (h.typed.wellTyped_arguments h.wellTyped) h.fits
          have hg := h.typed
          simp only [MethodGroup.Typed, ht] at hg
          exact BoundExpr.wellTyped_node.mpr
            ⟨h.typed_call hc he ht, List.forall_mem_cons.mpr ⟨hg.1, hc.wellTyped⟩⟩
      | extension receiver =>
          refine .pure fun _ h => ?_
          have hg := h.typed
          simp only [MethodGroup.Typed, ht] at hg
          have husable := hg.2 method h.mem
          simp [MethodDef.isUsableExtension, he] at husable

theorem ensures_selectOverload (group : MethodGroup) (arguments : List TypeId) :
    Ensures scope.types count (selectOverload scope group arguments) fun overload =>
      ∀ method, overload = .found method → method ∈ group.methods ∧
        List.Forall₂ (FitsOpen scope.types)
          (parameterTypes scope.types method group.receiverType?) arguments := by
  refine (Ensures.inProbingScope (steady_chooseAt group arguments _)).imp ?_
  rintro overload rfl method hm
  exact fits_of_chooseAt .empty hm

theorem ensures_callGroupOr (group : MethodGroup) (given : List BoundExpr) (span : Span)
    {otherwise : Compiling BoundExpr} (ho : Ensures scope.types count otherwise fun e =>
      group.Typed scope.types scope.parameters →
      (∀ argument ∈ given, argument.WellTyped scope.types scope.parameters) →
      e.WellTyped scope.types scope.parameters) :
    Ensures scope.types count (callGroupOr scope group given span otherwise) fun e =>
      group.Typed scope.types scope.parameters →
      (∀ argument ∈ given, argument.WellTyped scope.types scope.parameters) →
      e.WellTyped scope.types scope.parameters := by
  unfold callGroupOr
  refine (ensures_selectOverload group _).bind fun overload => ?_
  cases overload with
  | found method =>
      refine (ensures_buildCall group method given span).imp fun e h hs hg hw => ?_
      obtain ⟨hmem, hfits⟩ := hs method rfl
      exact h ⟨hg, hw, hmem, hfits⟩
  | ambiguous first second => exact Ensures.giveUp _ _ _ _
  | noMatch => exact ho.imp fun e h _ => h

theorem ensures_callGroup (group : MethodGroup) (given : List BoundExpr) (span : Span) :
    Ensures scope.types count (callGroup scope group given span) fun e =>
      group.Typed scope.types scope.parameters →
      (∀ argument ∈ given, argument.WellTyped scope.types scope.parameters) →
      e.WellTyped scope.types scope.parameters := by
  refine ensures_callGroupOr group given span ?_
  cases ht : group.target with
  | instanceOf receiver =>
      refine (ensures_extensionGroup receiver group.name group.span).bind fun found => ?_
      cases found with
      | none => exact Ensures.giveUp _ _ _ _
      | some extensions =>
          refine (ensures_callGroupOr extensions given span (Ensures.giveUp _ _ _ _)).imp ?_
          intro e h hfound hg hw
          simp only [MethodGroup.Typed, ht] at hg
          exact h (hfound hg.1 extensions rfl) hw
  | _ => exact Ensures.giveUp _ _ _ _

end Binding

end EventScript
