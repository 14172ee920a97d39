import EventScript.Proofs.Conversion.Steadiness

namespace EventScript

open MemberSearch

theorem Plan.Applies.isFailure_eq {t : TypeTable} {mode : ConversionMode} {plan : Plan}
    {source target : TypeId} (h : plan.Applies t mode source target) : plan.isFailure = false := by
  cases plan with
  | failure => exact h.elim
  | _ => rfl

namespace Conversion

variable {t : TypeTable} {source target underlying : TypeId} {mode : ConversionMode} {plan : Plan}

-- The plan that a place to look for a conversion method gives.
def MethodQuery.plan? (t : TypeTable) (source target : TypeId) (query : MethodQuery) :
    Option Plan :=
  ((MemberCache.lookup t query.owner query.name).answer.find?
    (converts t source target query.isImplicit)).map fun method =>
      .userDefined method query.isImplicit

theorem answer_firstMethod? (queries : List MethodQuery) :
    (firstMethod? t source target queries).answer =
      queries.findSome? (MethodQuery.plan? t source target) := by
  induction queries with
  | nil => rfl
  | cons query queries ih =>
      rw [firstMethod?, (steady_lookup query.owner query.name).answer_bind, List.findSome?_cons,
        MethodQuery.plan?]
      · cases (MemberCache.lookup t query.owner query.name).answer.find?
            (converts t source target query.isImplicit) with
        | some method => rfl
        | none => exact ih
      · split
        · exact .pure _
        · exact steady_firstMethod? source target queries

-- The plan of the first rule that applies, of those that do not look into a nullable target.
def directPlan? (t : TypeTable) (source target : TypeId) (mode : ConversionMode) : Option Plan :=
  (structural? t source target).or
    ((userDefined? t source target mode).answer.or (widening? t source target))

theorem answer_selectPlan : (selectPlan t source target mode).answer =
    (directPlan? t source target mode).getD
      (nullablePlan t source target mode (t.nullableUnderlying? target)).answer := by
  have hnullable : Steady t (nullablePlan t source target mode (t.nullableUnderlying? target)) :=
    steady_nullablePlan fun underlying _ => steady_selectPlan source underlying mode
  rw [selectPlan_eq, directPlan?]
  cases structural? t source target with
  | some plan => rfl
  | none =>
      simp only [methodPlan, Option.none_or]
      rw [(steady_userDefined? source target mode).answer_bind]
      · cases (userDefined? t source target mode).answer with
        | some plan => rfl
        | none => cases widening? t source target <;> rfl
      · split
        · exact .pure _
        split
        · exact .pure _
        · exact hnullable

theorem answer_selectPlan_of_directPlan? (h : directPlan? t source target mode = some plan) :
    (selectPlan t source target mode).answer = plan := by
  rw [answer_selectPlan, h, Option.getD_some]

theorem answer_selectPlan_of_none (h : directPlan? t source target mode = none) :
    (selectPlan t source target mode).answer =
      (nullablePlan t source target mode (t.nullableUnderlying? target)).answer := by
  rw [answer_selectPlan, h, Option.getD_none]

theorem applies_of_directPlan? (h : directPlan? t source target mode = some plan) :
    plan.Applies t mode source target := by
  rw [directPlan?, Option.or_eq_some_iff, Option.or_eq_some_iff] at h
  rcases h with hs | ⟨-, hm | ⟨-, hw⟩⟩
  · exact applies_of_structural? hs
  · exact applies_of_userDefined? .empty hm
  · exact applies_of_widening? hw

-- A rule that applies never fails afterwards.
theorem isFailure_selectPlan_of_isSome (h : (directPlan? t source target mode).isSome) :
    (selectPlan t source target mode).answer.isFailure = false := by
  obtain ⟨plan, hplan⟩ := Option.isSome_iff_exists.mp h
  rw [answer_selectPlan_of_directPlan? hplan]
  exact (applies_of_directPlan? hplan).isFailure_eq

-- Either a rule applies or what is left decides.
theorem isFailure_selectPlan_of_nullablePlan
    (h : (nullablePlan t source target mode (t.nullableUnderlying? target)).answer.isFailure =
      false) : (selectPlan t source target mode).answer.isFailure = false := by
  cases hd : directPlan? t source target mode with
  | some plan => exact isFailure_selectPlan_of_isSome (by rw [hd, Option.isSome_some])
  | none => rwa [answer_selectPlan_of_none hd]

theorem isSome_directPlan?_of_structural? (h : (structural? t source target).isSome) :
    (directPlan? t source target mode).isSome := by
  rw [directPlan?, Option.isSome_or, h, Bool.true_or]

theorem isSome_directPlan?_of_widening? (h : (widening? t source target).isSome) :
    (directPlan? t source target mode).isSome := by
  rw [directPlan?, Option.isSome_or, Option.isSome_or, h, Bool.or_true, Bool.or_true]

theorem isSome_structural?_of_isAssignable (h : t.isAssignable target source = true) :
    (structural? t source target).isSome := by
  unfold structural?
  split
  · rfl
  split
  · rfl
  · rfl

theorem isSome_structural?_of_unwrapping? (h : (unwrapping? t source target).isSome) :
    (structural? t source target).isSome := by
  unfold structural?
  split
  · rfl
  split
  · rfl
  split
  · rfl
  · exact h

-- The rules for a target that holds a value of another type or nothing.
theorem answer_nullablePlan_some :
    (nullablePlan t source target mode (some underlying)).answer =
      if source = .null then .emptyNullable
      else if source = underlying then .wrapNullable
      else if mode.isExplicit ∧ source ≠ .object then
        if (selectPlan t source underlying mode).answer.isFailure then .failure mode
        else .convertNullable (selectPlan t source underlying mode).answer
      else lastResort t source target mode := by
  dsimp only [nullablePlan]
  split
  · rfl
  split
  · rfl
  split
  · rfl
  · rfl

theorem answer_nullablePlan_none :
    (nullablePlan t source target mode none).answer = lastResort t source target mode := rfl

end Conversion

end EventScript
