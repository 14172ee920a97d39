import EventScript.Conversion.Resolution
import EventScript.Host.Standard
import EventScript.Proofs.Host.BaseChain
import EventScript.Proofs.Host.MemberSearch

namespace EventScript

namespace Plan

-- Whether some part of the plan gives up.
def mentionsFailure : Plan → Bool
  | failure _ => true
  | unwrapExtensible inner | convertNullable inner => inner.mentionsFailure
  | _ => false

-- A public static method of one parameter that takes the source and returns the target, and that
-- may be used in this way and under this mode.
def IsConversionMethod (t : TypeTable) (mode : ConversionMode) (isImplicit : Bool)
    (m : MethodDef) (source target : TypeId) : Prop :=
  m.isPublic = true ∧ m.isStatic = true ∧ m.returns = target ∧
    (∃ parameter, m.parameters = [parameter] ∧ t.isAssignable parameter source = true) ∧
    (isImplicit = true → m.explicitOnly = false) ∧
    (isImplicit = false → mode.isExplicit = true)

-- What has to hold of two types for a value of the one to become a value of the other by the plan.
-- The parts of a plan are taken with the type that the outer step leaves for them.
def Applies (t : TypeTable) (mode : ConversionMode) : Plan → TypeId → TypeId → Prop
  | identity, source, target => source = target
  | box, source, target => t.isValueType source = true ∧ target = .object
  | assignable, source, target => t.isAssignable target source = true
  | unwrapExtensible inner, source, target =>
      ∃ underlying, t.extensibleUnderlying? source = some underlying ∧
        inner.Applies t mode underlying target
  | userDefined method isImplicit, source, target =>
      IsConversionMethod t mode isImplicit (t.method method) source target
  | numericWiden sourceKind targetKind, source, target =>
      t.numericKind? source = some sourceKind ∧ t.numericKind? target = some targetKind ∧
        sourceKind.widensTo targetKind = true
  | emptyNullable, source, target =>
      (t.nullableUnderlying? target).isSome = true ∧ source = .null
  | wrapNullable, source, target => t.nullableUnderlying? target = some source
  | convertNullable inner, source, target =>
      mode.isExplicit = true ∧ ∃ underlying, t.nullableUnderlying? target = some underlying ∧
        inner.Applies t mode source underlying
  | nullToReference, source, target => source = .null ∧ t.isReferenceType target = true
  | numericNarrow sourceKind targetKind, source, target =>
      mode = .explicitCast ∧ t.numericKind? source = some sourceKind ∧
        t.numericKind? target = some targetKind
  | downcast, source, target =>
      mode.isExplicit = true ∧ t.isAssignable source target = true ∧ t.isValueType target = false
  | unbox, source, target =>
      mode.isExplicit = true ∧ t.isAssignable source target = true ∧ t.isValueType target = true
  | failure _, _, _ => False

theorem Applies.mentionsFailure_eq {t : TypeTable} {mode : ConversionMode} {plan : Plan}
    {source target : TypeId} (h : plan.Applies t mode source target) :
    plan.mentionsFailure = false := by
  induction plan generalizing source target with
  | failure => exact h.elim
  | unwrapExtensible inner ih =>
      obtain ⟨_, _, hi⟩ := h
      exact ih hi
  | convertNullable inner ih =>
      obtain ⟨_, _, _, hi⟩ := h
      exact ih hi
  | _ => rfl

end Plan

namespace Conversion

variable {t : TypeTable} {mode : ConversionMode} {source target : TypeId} {plan : Plan}

theorem applies_of_widening? (h : widening? t source target = some plan) :
    plan.Applies t mode source target := by
  simp only [widening?, Option.bind_eq_bind, Option.bind_eq_some_iff] at h
  obtain ⟨sourceKind, hs, targetKind, ht, h⟩ := h
  split at h
  · rename_i hw
    obtain rfl := Option.some.inj h
    exact ⟨hs, ht, hw⟩
  · cases h

theorem applies_of_unwrapping? (h : unwrapping? t source target = some plan) :
    plan.Applies t mode source target := by
  simp only [unwrapping?, Option.bind_eq_bind, Option.bind_eq_some_iff] at h
  obtain ⟨underlying, hu, h⟩ := h
  split at h
  · rename_i he
    obtain rfl := Option.some.inj h
    exact ⟨underlying, hu, he⟩
  split at h
  · rename_i ha
    obtain rfl := Option.some.inj h
    exact ⟨underlying, hu, ha⟩
  · obtain ⟨inner, hw, rfl⟩ := Option.map_eq_some_iff.mp h
    exact ⟨underlying, hu, applies_of_widening? hw⟩

theorem applies_of_structural? (h : structural? t source target = some plan) :
    plan.Applies t mode source target := by
  unfold structural? at h
  split at h
  · rename_i he
    obtain rfl := Option.some.inj h
    exact he
  split at h
  · rename_i hb
    obtain rfl := Option.some.inj h
    exact ⟨hb.2, hb.1⟩
  split at h
  · rename_i ha
    obtain rfl := Option.some.inj h
    exact ha
  · exact applies_of_unwrapping? h

-- Explicit methods are only asked for under an explicit mode.
theorem isExplicit_of_mem_methodQueries {query : MethodQuery}
    (hq : query ∈ methodQueries t source target mode) (hi : query.isImplicit = false) :
    mode.isExplicit = true := by
  by_contra hm
  simp only [methodQueries, hm, ↓reduceIte, List.append_nil,
    List.mem_flatMap, List.mem_cons, List.not_mem_nil, or_false, List.mem_map] at hq
  obtain ⟨_, rfl | rfl, _, _, rfl⟩ := hq <;> simp at hi

theorem isConversionMethod_of_converts {isImplicit : Bool} {id : MethodId}
    (h : converts t source target isImplicit id = true)
    (hm : isImplicit = false → mode.isExplicit = true) :
    Plan.IsConversionMethod t mode isImplicit (t.method id) source target := by
  simp only [converts, Bool.and_eq_true, Bool.not_eq_true', Bool.and_eq_false_iff,
    decide_eq_true_eq] at h
  obtain ⟨⟨⟨⟨hp, hs⟩, he⟩, hr⟩, ha⟩ := h
  refine ⟨hp, hs, hr, ?_, fun hi => he.resolve_left (by simp [hi]), hm⟩
  split at ha
  · rename_i parameter hl
    exact ⟨parameter, hl, ha⟩
  · cases ha

theorem applies_of_firstMethod? {queries : List MethodQuery}
    (hq : ∀ query ∈ queries, query.isImplicit = false → mode.isExplicit = true)
    (cache : MemberCache) (h : (firstMethod? t source target queries cache).1 = some plan) :
    plan.Applies t mode source target := by
  induction queries generalizing cache with
  | nil => cases h
  | cons query queries ih =>
      simp only [firstMethod?, MemberSearch.bind_apply] at h
      cases hf : (MemberCache.lookup t query.owner query.name cache).1.find?
          (converts t source target query.isImplicit) with
      | some method =>
          simp only [hf, MemberSearch.pure_apply] at h
          obtain rfl := Option.some.inj h
          exact isConversionMethod_of_converts (List.find?_some hf)
            (hq query List.mem_cons_self)
      | none =>
          simp only [hf] at h
          exact ih (fun q hm => hq q (List.mem_cons_of_mem _ hm)) _ h

theorem applies_of_userDefined? (cache : MemberCache)
    (h : (userDefined? t source target mode cache).1 = some plan) :
    plan.Applies t mode source target := by
  unfold userDefined? at h
  cases hu : t.extensibleUnderlying? source with
  | some underlying =>
      simp only [hu, MemberSearch.bind_apply, MemberSearch.pure_apply] at h
      obtain ⟨inner, hf, rfl⟩ := Option.map_eq_some_iff.mp h
      exact ⟨underlying, hu,
        applies_of_firstMethod? (fun _ hq => isExplicit_of_mem_methodQueries hq) cache hf⟩
  | none =>
      simp only [hu] at h
      exact applies_of_firstMethod? (fun _ hq => isExplicit_of_mem_methodQueries hq) cache h

theorem applies_of_forced? (hm : mode.isExplicit = true)
    (h : forced? t source target mode = some plan) : plan.Applies t mode source target := by
  unfold forced? at h
  split at h
  · rename_i sourceKind targetKind hs ht
    split at h
    · rename_i he
      obtain rfl := Option.some.inj h
      exact ⟨he, hs, ht⟩
    · cases h
  · split at h
    · rename_i ha
      obtain rfl := Option.some.inj h
      by_cases hv : t.isValueType target = true
      · simp only [hv, ↓reduceIte]
        exact ⟨hm, ha, hv⟩
      · simp only [hv]
        exact ⟨hm, ha, by simpa using hv⟩
    · cases h

theorem lastResort_applies (h : lastResort t source target mode ≠ .failure mode) :
    (lastResort t source target mode).Applies t mode source target := by
  unfold lastResort at h ⊢
  split
  · rename_i hn
    exact hn
  · rename_i hn
    simp only [hn, ↓reduceIte] at h
    split
    · rename_i hm
      simp only [hm, ↓reduceIte] at h
      cases hf : forced? t source target mode with
      | none => simp [hf] at h
      | some plan => exact applies_of_forced? hm hf
    · rename_i hm
      simp [hm] at h

-- The last rules, for a target that is a nullable of the given type, or no nullable.
def nullablePlan (t : TypeTable) (source target : TypeId) (mode : ConversionMode) :
    Option TypeId → MemberSearch Plan
  | none => pure (lastResort t source target mode)
  | some underlying =>
    if source = .null then pure .emptyNullable
    else if source = underlying then pure .wrapNullable
    else if mode.isExplicit ∧ source ≠ .object then do
      let inner ← selectPlan t source underlying mode
      pure (if inner.isFailure then .failure mode else .convertNullable inner)
    else pure (lastResort t source target mode)

-- What is left when the rules that need neither a method nor a nullable have failed.
def methodPlan (t : TypeTable) (source target : TypeId) (mode : ConversionMode) :
    MemberSearch Plan := do
  match ← userDefined? t source target mode with
  | some plan => pure plan
  | none =>
    match widening? t source target with
    | some plan => pure plan
    | none => nullablePlan t source target mode (t.nullableUnderlying? target)

theorem selectPlan_eq (t : TypeTable) (source target : TypeId) (mode : ConversionMode) :
    selectPlan t source target mode =
      match structural? t source target with
      | some plan => pure plan
      | none => methodPlan t source target mode := by
  rw [selectPlan]
  cases structural? t source target with
  | some => rfl
  | none =>
      simp only [methodPlan]
      congr
      funext found
      cases found with
      | some => rfl
      | none =>
          cases widening? t source target with
          | some => rfl
          | none =>
              simp only [nullablePlan]
              split <;> rename_i hu <;> simp only [hu]

theorem nullablePlan_applies {inside : Option TypeId} (cache : MemberCache)
    (hi : t.nullableUnderlying? target = inside)
    (ih : ∀ underlying ∈ inside, ∀ cache,
      (selectPlan t source underlying mode cache).1 = .failure mode ∨
        (selectPlan t source underlying mode cache).1.Applies t mode source underlying) :
    (nullablePlan t source target mode inside cache).1 = .failure mode ∨
      (nullablePlan t source target mode inside cache).1.Applies t mode source target := by
  cases inside with
  | none => exact or_iff_not_imp_left.mpr lastResort_applies
  | some underlying =>
      by_cases hn : source = .null
      · simp only [nullablePlan, if_pos hn]
        exact .inr ⟨by simp [hi], hn⟩
      by_cases hs : source = underlying
      · simp only [nullablePlan, if_neg hn, if_pos hs]
        exact .inr (hs ▸ hi)
      by_cases hm : mode.isExplicit = true ∧ source ≠ .object
      · simp only [nullablePlan, if_neg hn, if_neg hs, if_pos hm, MemberSearch.bind_apply,
          MemberSearch.pure_apply]
        cases hf : (selectPlan t source underlying mode cache).1.isFailure with
        | true => exact .inl rfl
        | false =>
            refine .inr ⟨hm.1, underlying, hi, (ih underlying rfl cache).resolve_left ?_⟩
            intro hfail
            simp [hfail, Plan.isFailure] at hf
      · simp only [nullablePlan, if_neg hn, if_neg hs, if_neg hm]
        exact or_iff_not_imp_left.mpr lastResort_applies

-- A failure names the mode of the whole conversion, also where it arose inside a nullable. The
-- induction is on the number of the target, since the type inside a nullable is older.
theorem selectPlan_applies (t : TypeTable) (source : TypeId) (mode : ConversionMode)
    (target : TypeId) (cache : MemberCache) :
    (selectPlan t source target mode cache).1 = .failure mode ∨
      (selectPlan t source target mode cache).1.Applies t mode source target := by
  induction hn : target.index using Nat.strongRecOn generalizing target cache with
  | _ n ih =>
      rw [selectPlan_eq]
      cases hs : structural? t source target with
      | some plan => exact .inr (applies_of_structural? hs)
      | none =>
          simp only [methodPlan, MemberSearch.bind_apply]
          cases hm : (userDefined? t source target mode cache).1 with
          | some plan => exact .inr (applies_of_userDefined? cache hm)
          | none =>
              cases hw : widening? t source target with
              | some plan => exact .inr (applies_of_widening? hw)
              | none =>
                  refine nullablePlan_applies _ rfl fun underlying hu cache => ?_
                  have hlt := index_lt_of_nullableUnderlying? t hu
                  exact ih underlying.index (hn ▸ hlt) underlying cache rfl

-- Walks along base types, the only searches without a bound of their own, end by themselves, and
-- the plan that is chosen takes the source to the target, or is the failure of the mode alone.
theorem resolve_sound (t : TypeTable) (ht : t.Acyclic) (source target : TypeId)
    (mode : ConversionMode) (cache : MemberCache) :
    (∀ id, t.BaseWalk id (t.baseChain id)) ∧
      let plan := (resolve t source target mode cache).1.plan
      plan = .failure mode ∨
        (plan.mentionsFailure = false ∧ plan.Applies t mode source target) := by
  refine ⟨ht.baseWalk, ?_⟩
  rcases selectPlan_applies t source mode target cache with hf | ha
  · exact .inl hf
  · exact .inr ⟨ha.mentionsFailure_eq, ha⟩

-- Credits become a nullable number by a method that has to be asked for.
theorem resolve_sound_standard :
    Standard.host.types.Acyclic ∧
      let plan := (resolve Standard.host.types ⟨37⟩ ⟨31⟩ .explicitCast .empty).1.plan
      plan.mentionsFailure = false ∧
        plan.Applies Standard.host.types .explicitCast ⟨37⟩ ⟨31⟩ := by
  have ht : Standard.host.types.Acyclic :=
    TypeTable.acyclic_of_bases_older (by decide +kernel)
  have hs : (resolve Standard.host.types ⟨37⟩ ⟨31⟩ .explicitCast .empty).1.isSuccess = true := by
    decide +kernel
  refine ⟨ht, ((resolve_sound _ ht ⟨37⟩ ⟨31⟩ .explicitCast .empty).2).resolve_left ?_⟩
  intro hf
  rw [isSuccess, hf] at hs
  cases hs

end Conversion

end EventScript
