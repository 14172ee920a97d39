import EventScript.Proofs.Binding.Compiling
import EventScript.Proofs.Binding.WellTyped

namespace EventScript

open MemberSearch

namespace Conversion

variable {t : TypeTable} {source target : TypeId} {mode : ConversionMode}

theorem answer_resolve : (resolve t source target mode).answer =
    ⟨source, target, mode, (selectPlan t source target mode).answer,
      if mode.isTry ∧ t.isValueType target then .object else target⟩ := rfl

end Conversion

namespace Descriptor

variable {t : TypeTable} {d : Descriptor} {source target : TypeId} {mode : ConversionMode}

theorem answer_conversion?_convert (h : d.key = .convert target mode) :
    (d.conversion? t source).answer = some (Conversion.resolve t source target mode).answer := by
  unfold conversion?
  rw [h]
  rfl

-- Taking the result as an object changes nothing where trying gives an object anyway.
theorem answer_conversion?_convertToObject (h : d.key = .convertToObject target mode)
    (ho : mode.isTry = true ∧ t.isValueType target = true) :
    (d.conversion? t source).answer = some (Conversion.resolve t source target mode).answer := by
  unfold conversion?
  rw [h]
  show some { (Conversion.resolve t source target mode).answer with resultType := .object } = _
  rw [Conversion.answer_resolve, if_pos ho]

end Descriptor

namespace Binding

open Compiling

-- An expression that another has been converted to, with that type.
structure Converted (t : TypeTable) (parameters : List (String × TypeId)) (e : BoundExpr)
    (type : TypeId) (converted : BoundExpr) : Prop where
  wellTyped : converted.WellTyped t parameters
  type_eq : converted.type = type
  isReceiver : IsReceiver e.type converted

variable {scope : BindingScope} {count : Nat}

theorem ensures_applyConversion (e : BoundExpr) (conversion : Conversion)
    (descriptor : Descriptor) :
    Ensures scope.types count (applyConversion scope e conversion descriptor) fun converted =>
      e.WellTyped scope.types scope.parameters → conversion.source = e.type →
      conversion =
        (Conversion.resolve scope.types e.type conversion.target conversion.mode).answer →
      (descriptor.key = .convert conversion.target conversion.mode ∨
        descriptor.key = .convertToObject conversion.target conversion.mode) →
      conversion.mode ≠ .implicitTry →
      Converted scope.types scope.parameters e conversion.resultType converted := by
  unfold applyConversion
  split_ifs with hid herr
  · exact .pure fun he _ _ _ _ => ⟨he, hid.2.symm, .inl rfl⟩
  · exact Ensures.giveUp _ _ _ _
  · refine Ensures.isChecked.bind fun checked => .pure fun _ he hs hf hk hm => ?_
    have hfail : conversion.plan.isFailure = true → conversion.mode = .explicitTry := by
      intro hp
      rw [Conversion.isError, hp] at herr
      cases hmode : conversion.mode with
      | implicitTry => exact absurd hmode hm
      | explicitTry => rfl
      | _ => simp [hmode, ConversionMode.isTry] at herr
    refine ⟨BoundExpr.wellTyped_node.mpr ⟨⟨e, rfl, hs, hf, hk, rfl, hfail⟩, ?_⟩, rfl, ?_⟩
    · simpa using he
    · exact .inr ⟨conversion, rfl, hs.symm⟩

theorem ensures_convertBy (e : BoundExpr) (descriptor : Descriptor) (target : TypeId)
    (mode : ConversionMode) (hm : mode ≠ .implicitTry) :
    Ensures scope.types count (convertBy scope e descriptor) fun converted =>
      e.WellTyped scope.types scope.parameters →
      (descriptor.key = .convert target mode ∨ (descriptor.key = .convertToObject target mode ∧
        mode.isTry = true ∧ scope.types.isValueType target = true)) →
      Converted scope.types scope.parameters e
        (Conversion.resolve scope.types e.type target mode).answer.resultType converted := by
  unfold convertBy
  refine (Ensures.search (descriptor.steady_conversion? e.type)).bind fun found => ?_
  -- the key decides which conversion has been found
  have hfound : found = (descriptor.conversion? scope.types e.type).answer →
      (descriptor.key = .convert target mode ∨ (descriptor.key = .convertToObject target mode ∧
        mode.isTry = true ∧ scope.types.isValueType target = true)) →
      found = some (Conversion.resolve scope.types e.type target mode).answer := by
    rintro ha (hk | ⟨hk, ho⟩)
    · rw [ha, Descriptor.answer_conversion?_convert hk]
    · rw [ha, Descriptor.answer_conversion?_convertToObject hk ho]
  cases found with
  | none => exact .pure fun ha _ hk => by simpa using hfound ha hk
  | some conversion =>
      refine (ensures_applyConversion e conversion descriptor).imp fun converted h ha he hk => ?_
      obtain rfl := Option.some.inj (hfound ha hk)
      exact h he rfl rfl (hk.imp id And.left) hm

theorem ensures_convert (e : BoundExpr) (target : TypeId) {mode : ConversionMode}
    (hm : mode.isTry = false) :
    Ensures scope.types count (convert scope e target mode) fun converted =>
      e.WellTyped scope.types scope.parameters →
      Converted scope.types scope.parameters e target converted := by
  unfold convert
  split
  · rename_i herr
    exact .pure fun he => by simp [he.isError_eq] at herr
  · refine (Ensures.descriptor _).bind fun descriptor => ?_
    have hne : mode ≠ .implicitTry := by
      rintro rfl
      cases hm
    refine (ensures_convertBy e descriptor target mode hne).imp fun converted h hk he => ?_
    have hc := h he (.inl hk)
    rwa [Conversion.answer_resolve, if_neg (by simp [hm])] at hc

theorem ensures_convertsImplicitly (source target : TypeId) :
    Ensures scope.types count (convertsImplicitly scope source target) fun _ => True :=
  (Ensures.search (Conversion.steady_isPossible source target .one)).imp fun _ _ => trivial

end Binding

end EventScript
