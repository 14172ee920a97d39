import EventScript.Proofs.Conversion.Rules
import EventScript.Proofs.Host.BaseChain
import EventScript.Proofs.Host.Standard

namespace EventScript

open MemberSearch

-- A conversion method that a script has to ask for, called on the value or on what is inside it.
def Plan.IsExplicitMethod (plan : Plan) : Prop :=
  ∃ method, plan = .userDefined method false ∨
    plan = .unwrapExtensible (.userDefined method false)

theorem Plan.IsExplicitMethod.isFailure_eq {plan : Plan} (h : plan.IsExplicitMethod) :
    plan.isFailure = false := by
  obtain ⟨method, rfl | rfl⟩ := h <;> rfl

namespace Conversion

variable {t : TypeTable} {source target : TypeId} {mode mode' : ConversionMode}

-- The places that only an explicit conversion asks, behind all those for implicit ones.
def forcedQueries (t : TypeTable) (source target : TypeId) : List MethodQuery :=
  [explicitOperator, "ConvertTo" ++ (t.get target).name].flatMap fun name =>
    [source, target].map fun owner => ⟨owner, name, false⟩

theorem methodQueries_congr (h : mode'.isExplicit = mode.isExplicit) :
    methodQueries t source target mode' = methodQueries t source target mode := by
  rw [methodQueries, methodQueries, h]

theorem methodQueries_of_explicit (h : mode.isExplicit = true) :
    methodQueries t source target mode =
      methodQueries t source target .implicitCast ++ forcedQueries t source target := by
  rw [methodQueries, h]
  rfl

-- What is left of a search for methods once no implicit one is found.
def forcedMethod? (t : TypeTable) (source target : TypeId) : Option Plan :=
  match t.extensibleUnderlying? source with
  | some underlying =>
    ((forcedQueries t underlying target).findSome?
      (MethodQuery.plan? t underlying target)).map .unwrapExtensible
  | none => (forcedQueries t source target).findSome? (MethodQuery.plan? t source target)

theorem answer_userDefined?_of_explicit (h : mode.isExplicit = true) :
    (userDefined? t source target mode).answer =
      (userDefined? t source target .implicitCast).answer.or (forcedMethod? t source target) := by
  unfold userDefined? forcedMethod?
  cases t.extensibleUnderlying? source with
  | some underlying =>
      simp only [answer_bind_pure, answer_firstMethod?, methodQueries_of_explicit h,
        List.findSome?_append, Option.map_or]
  | none =>
      simp only [answer_firstMethod?, methodQueries_of_explicit h, List.findSome?_append]

theorem userDefined_of_forcedQueries {plan : Plan}
    (h : (forcedQueries t source target).findSome? (MethodQuery.plan? t source target) =
      some plan) : ∃ method, plan = .userDefined method false := by
  obtain ⟨query, hmem, hplan⟩ := List.exists_of_findSome?_eq_some h
  obtain ⟨method, -, rfl⟩ := Option.map_eq_some_iff.mp hplan
  have himplicit : query.isImplicit = false := by
    obtain ⟨name, -, hname⟩ := List.mem_flatMap.mp hmem
    obtain ⟨owner, -, rfl⟩ := List.mem_map.mp hname
    rfl
  exact ⟨method, by rw [himplicit]⟩

theorem isExplicitMethod_of_forcedMethod? {plan : Plan}
    (h : forcedMethod? t source target = some plan) : plan.IsExplicitMethod := by
  unfold forcedMethod? at h
  split at h
  · obtain ⟨inner, hinner, rfl⟩ := Option.map_eq_some_iff.mp h
    obtain ⟨method, rfl⟩ := userDefined_of_forcedQueries hinner
    exact ⟨method, .inr rfl⟩
  · obtain ⟨method, rfl⟩ := userDefined_of_forcedQueries h
    exact ⟨method, .inl rfl⟩

theorem directPlan?_congr (h : mode'.isExplicit = mode.isExplicit) :
    directPlan? t source target mode' = directPlan? t source target mode := by
  unfold directPlan? userDefined?
  simp only [methodQueries_congr h]

-- Explicit modes ask one rule more, in front of widening.
theorem directPlan?_of_explicit (h : mode.isExplicit = true) :
    directPlan? t source target mode = directPlan? t source target .implicitCast ∨
      ∃ plan, directPlan? t source target mode = some plan ∧ plan.IsExplicitMethod := by
  rw [directPlan?, directPlan?, answer_userDefined?_of_explicit h]
  cases structural? t source target with
  | some plan => exact .inl rfl
  | none =>
      cases (userDefined? t source target .implicitCast).answer with
      | some plan => exact .inl rfl
      | none =>
          cases hf : forcedMethod? t source target with
          | some plan => exact .inr ⟨plan, rfl, isExplicitMethod_of_forcedMethod? hf⟩
          | none => exact .inl rfl

-- What implicit modes find behind the direct rules is found in the same way by all modes.
theorem answer_nullablePlan_of_implicit {inside : Option TypeId} (hm : mode.isExplicit = false)
    (h : (nullablePlan t source target mode inside).answer.isFailure = false)
    (mode' : ConversionMode) :
    (nullablePlan t source target mode' inside).answer =
      (nullablePlan t source target mode inside).answer := by
  cases inside with
  | none =>
      rw [answer_nullablePlan_none] at h ⊢
      rw [answer_nullablePlan_none]
      by_cases hnull : source = .null ∧ t.isReferenceType target
      · simp only [lastResort, if_pos hnull]
      · simp [lastResort, if_neg hnull, hm, Plan.isFailure] at h
  | some underlying =>
      rw [answer_nullablePlan_some] at h ⊢
      rw [answer_nullablePlan_some]
      by_cases hnull : source = .null
      · simp only [if_pos hnull]
      by_cases hsame : source = underlying
      · simp only [if_neg hnull, if_pos hsame]
      · simp [lastResort, hnull, hsame, hm, Plan.isFailure] at h

-- An implicit plan holds in every implicit mode, and in every explicit one that has no explicit
-- method for it.
theorem answer_selectPlan_of_implicit (hm : mode.isExplicit = false)
    (h : (selectPlan t source target mode).answer.isFailure = false) (mode' : ConversionMode) :
    (selectPlan t source target mode').answer = (selectPlan t source target mode).answer ∨
      mode'.isExplicit = true ∧ (selectPlan t source target mode').answer.IsExplicitMethod := by
  have hdirect : directPlan? t source target mode' = directPlan? t source target mode ∨
      mode'.isExplicit = true ∧
        ∃ plan, directPlan? t source target mode' = some plan ∧ plan.IsExplicitMethod := by
    cases hm' : mode'.isExplicit with
    | false => exact .inl (directPlan?_congr (hm'.trans hm.symm))
    | true =>
        have hbase : directPlan? t source target mode = directPlan? t source target .implicitCast :=
          directPlan?_congr hm
        rw [hbase]
        exact (directPlan?_of_explicit hm').imp_right fun hplan => ⟨rfl, hplan⟩
  rcases hdirect with heq | ⟨hm', plan, hplan, hmethod⟩
  · left
    cases hd : directPlan? t source target mode with
    | some plan =>
        rw [answer_selectPlan_of_directPlan? hd, answer_selectPlan_of_directPlan? (heq.trans hd)]
    | none =>
        rw [answer_selectPlan_of_none hd] at h ⊢
        rw [answer_selectPlan_of_none (heq.trans hd)]
        exact answer_nullablePlan_of_implicit hm h mode'
  · right
    rw [answer_selectPlan_of_directPlan? hplan]
    exact ⟨hm', hmethod⟩

theorem lastResort_explicitCast
    (h : (lastResort t source target .explicitTry).isFailure = false) :
    lastResort t source target .explicitCast = lastResort t source target .explicitTry := by
  unfold lastResort at h ⊢
  by_cases hnull : source = .null ∧ t.isReferenceType target
  · simp only [if_pos hnull]
  · cases hf : forced? t source target .explicitTry with
    | none => simp [if_neg hnull, hf, ConversionMode.isExplicit, Plan.isFailure] at h
    | some plan =>
        have hcast : forced? t source target .explicitCast = some plan := by
          unfold forced? at hf ⊢
          split at hf
          · simp at hf
          · exact hf
        simp only [if_neg hnull, hcast, ConversionMode.isExplicit, if_true, Option.getD_some]

theorem answer_nullablePlan_explicitCast {inside : Option TypeId}
    (hinner : ∀ underlying ∈ inside,
      (selectPlan t source underlying .explicitTry).answer.isFailure = false →
      (selectPlan t source underlying .explicitCast).answer =
        (selectPlan t source underlying .explicitTry).answer)
    (h : (nullablePlan t source target .explicitTry inside).answer.isFailure = false) :
    (nullablePlan t source target .explicitCast inside).answer =
      (nullablePlan t source target .explicitTry inside).answer := by
  cases inside with
  | none => exact lastResort_explicitCast h
  | some underlying =>
      rw [answer_nullablePlan_some] at h
      rw [answer_nullablePlan_some, answer_nullablePlan_some]
      by_cases hnull : source = .null
      · simp only [if_pos hnull]
      by_cases hsame : source = underlying
      · simp only [if_neg hnull, if_pos hsame]
      by_cases hobject : source = .object
      · have hstop (mode : ConversionMode) : ¬(mode.isExplicit ∧ source ≠ .object) :=
          fun hgo => hgo.2 hobject
        simp only [if_neg hnull, if_neg hsame, if_neg (hstop _)] at h ⊢
        exact lastResort_explicitCast h
      · have hgo (mode : ConversionMode) (hm : mode.isExplicit) :
            mode.isExplicit ∧ source ≠ .object := ⟨hm, hobject⟩
        simp only [if_neg hnull, if_neg hsame, if_pos (hgo .explicitTry rfl),
          if_pos (hgo .explicitCast rfl)] at h ⊢
        cases hf : (selectPlan t source underlying .explicitTry).answer.isFailure with
        | true =>
            rw [hf, if_pos rfl] at h
            cases h
        | false => simp only [hinner underlying rfl hf, hf, Bool.false_eq_true, if_false]

-- What is found where a script tries is found where it insists. The induction is on the number of
-- the target, since the type inside a nullable is older.
theorem answer_selectPlan_explicitCast
    (h : (selectPlan t source target .explicitTry).answer.isFailure = false) :
    (selectPlan t source target .explicitCast).answer =
      (selectPlan t source target .explicitTry).answer := by
  induction hn : target.index using Nat.strongRecOn generalizing target with
  | _ n ih =>
      have hdirect : directPlan? t source target .explicitCast =
          directPlan? t source target .explicitTry := directPlan?_congr rfl
      cases hd : directPlan? t source target .explicitTry with
      | some plan =>
          rw [answer_selectPlan_of_directPlan? hd,
            answer_selectPlan_of_directPlan? (hdirect.trans hd)]
      | none =>
          rw [answer_selectPlan_of_none hd] at h ⊢
          rw [answer_selectPlan_of_none (hdirect.trans hd)]
          refine answer_nullablePlan_explicitCast (fun underlying hu hinner => ?_) h
          have hlt := index_lt_of_nullableUnderlying? t hu
          exact ih underlying.index (hn ▸ hlt) hinner rfl

theorem answer_selectPlan_of_isAssignable (h : t.isAssignable target source = true) :
    ∃ plan, plan.isFailure = false ∧
      ∀ mode, (selectPlan t source target mode).answer = plan := by
  obtain ⟨plan, hplan⟩ := Option.isSome_iff_exists.mp (isSome_structural?_of_isAssignable h)
  have happlies : plan.Applies t .implicitCast source target := applies_of_structural? hplan
  refine ⟨plan, happlies.isFailure_eq, fun mode => answer_selectPlan_of_directPlan? ?_⟩
  rw [directPlan?, hplan, Option.some_or]

theorem answer_selectPlan_of_isFailure
    (h : (selectPlan t source target mode).answer.isFailure = true) :
    (selectPlan t source target mode).answer = .failure mode := by
  refine (selectPlan_applies t source mode target .empty).resolve_right fun happlies => ?_
  have hsuccess : (selectPlan t source target mode).answer.isFailure = false :=
    happlies.isFailure_eq
  rw [h] at hsuccess
  cases hsuccess

end Conversion

end EventScript
