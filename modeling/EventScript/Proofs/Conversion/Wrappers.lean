import EventScript.Proofs.Conversion.Rules
import EventScript.Proofs.Host.BaseChain
import EventScript.Proofs.Host.Reached

namespace EventScript

open MemberSearch

-- Whether a plan for a value goes on to hold for a wrapper of it. A wrapper is opened once, and
-- then there is nothing left to do, a value to be taken as another, a number to be widened or a
-- method to be called. Into a nullable it only goes where a script asks for it.
def Plan.carriesOver (mode : ConversionMode) : Plan → Bool
  | identity | box | assignable | numericWiden _ _ | userDefined _ _ => true
  | wrapNullable => mode.isExplicit
  | convertNullable inner => inner.carriesOver mode
  | _ => false

namespace TypeTable

variable {t : TypeTable} {inside wrapper : TypeId}

theorem kind_object (hg : initial.GrowsTo t) : t.kind .object = .object :=
  (hg.kind_eq rfl).trans rfl

theorem extensibleUnderlying?_eq_some (hw : t.WellFormed)
    (h : t.findInstance? .extensible [inside] = some wrapper) :
    t.extensibleUnderlying? wrapper = some inside := by
  have hshape := (hw.findInstance?_eq_some.mp h).2
  simp [extensibleUnderlying?, isInstanceOf, genericArguments, hshape, GenericShape.arguments]

theorem ne_object_of_extensibleUnderlying? (hg : initial.GrowsTo t)
    (h : t.extensibleUnderlying? wrapper = some inside) : wrapper ≠ .object := by
  rintro rfl
  have hshape : (t.get .object).shape = .plain := (hg.shape_eq rfl).trans rfl
  simp [extensibleUnderlying?, isInstanceOf, hshape] at h

theorem isAssignable_object_of_isValueType (ho : t.kind .object = .object)
    (h : t.isValueType inside = true) : t.isAssignable .object inside = true := by
  unfold isAssignable
  split
  · rfl
  · unfold isValueType at h
    rw [ho]
    cases hk : t.kind inside <;> simp_all

end TypeTable

namespace Conversion

variable {t : TypeTable} {inside wrapper target : TypeId} {mode : ConversionMode} {plan : Plan}

theorem isSome_unwrapping? (hu : t.extensibleUnderlying? wrapper = some inside)
    (h : inside = target ∨ t.isAssignable target inside = true ∨
      (widening? t inside target).isSome) :
    (unwrapping? t wrapper target).isSome := by
  rw [unwrapping?, hu, Option.bind_eq_bind, Option.bind_some]
  split
  · rfl
  split
  · rfl
  · rename_i hne hna
    rw [Option.isSome_map]
    exact (h.resolve_left hne).resolve_left hna

theorem carriesOver_of_unwrapping? (h : unwrapping? t inside target = some plan) :
    plan.carriesOver mode = false := by
  obtain ⟨underlying, -, h⟩ := Option.bind_eq_some_iff.mp h
  split at h
  · obtain rfl := Option.some.inj h
    rfl
  split at h
  · obtain rfl := Option.some.inj h
    rfl
  · obtain ⟨inner, -, rfl⟩ := Option.map_eq_some_iff.mp h
    rfl

theorem carriesOver_lastResort : (lastResort t inside target mode).carriesOver mode = false := by
  unfold lastResort forced?
  split
  · rfl
  split
  · split
    · split <;> rfl
    · split
      · split <;> rfl
      · rfl
  · rfl

theorem isSome_structural?_wrapper (ho : t.kind .object = .object)
    (hu : t.extensibleUnderlying? wrapper = some inside)
    (h : structural? t inside target = some plan) (hc : plan.carriesOver mode = true) :
    (structural? t wrapper target).isSome := by
  refine isSome_structural?_of_unwrapping? (isSome_unwrapping? hu ?_)
  unfold structural? at h
  split at h
  · rename_i hsame
    exact .inl hsame
  split at h
  · rename_i hbox
    exact .inr (.inl (hbox.1 ▸ t.isAssignable_object_of_isValueType ho hbox.2))
  split at h
  · rename_i hassignable
    exact .inr (.inl hassignable)
  · rw [carriesOver_of_unwrapping? h] at hc
    cases hc

-- The search for a method looks into the wrapper by itself, unless what is inside is a wrapper too.
theorem isSome_answer_userDefined?_wrapper (hu : t.extensibleUnderlying? wrapper = some inside)
    (h : (userDefined? t inside target mode).answer = some plan)
    (hc : plan.carriesOver mode = true) :
    (userDefined? t wrapper target mode).answer.isSome := by
  unfold userDefined? at h ⊢
  rw [hu]
  cases hn : t.extensibleUnderlying? inside with
  | some underlying =>
      simp only [hn, answer_bind_pure] at h
      obtain ⟨inner, -, rfl⟩ := Option.map_eq_some_iff.mp h
      cases hc
  | none =>
      simp only [hn] at h
      simp only [answer_bind_pure, h, Option.map_some, Option.isSome_some]

theorem isSome_directPlan?_wrapper (ho : t.kind .object = .object)
    (hu : t.extensibleUnderlying? wrapper = some inside)
    (h : directPlan? t inside target mode = some plan) (hc : plan.carriesOver mode = true) :
    (directPlan? t wrapper target mode).isSome := by
  rw [directPlan?, Option.or_eq_some_iff, Option.or_eq_some_iff] at h
  rcases h with hs | ⟨-, hm | ⟨-, hw⟩⟩
  · exact isSome_directPlan?_of_structural? (isSome_structural?_wrapper ho hu hs hc)
  · rw [directPlan?, Option.isSome_or, Option.isSome_or,
      isSome_answer_userDefined?_wrapper hu hm hc, Bool.true_or, Bool.or_true]
  · have hwidens : (unwrapping? t wrapper target).isSome :=
      isSome_unwrapping? hu (.inr (.inr (by rw [hw, Option.isSome_some])))
    exact isSome_directPlan?_of_structural? (isSome_structural?_of_unwrapping? hwidens)

theorem explicit_of_carriesOver_nullablePlan {underlying : TypeId}
    (h : (nullablePlan t inside target mode (some underlying)).answer.carriesOver mode = true) :
    mode.isExplicit = true ∧ (inside = underlying ∨
      (selectPlan t inside underlying mode).answer.carriesOver mode = true) := by
  rw [answer_nullablePlan_some] at h
  split at h
  · cases h
  split at h
  · rename_i hsame
    exact ⟨h, .inl hsame⟩
  split at h
  · rename_i hexplicit
    split at h
    · cases h
    · exact ⟨hexplicit.1, .inr h⟩
  · rw [carriesOver_lastResort] at h
    cases h

-- Where the value inside goes into a nullable, the wrapper goes there by what it holds.
theorem isFailure_nullablePlan_wrapper {underlying : TypeId} (hne : wrapper ≠ .object)
    (hinner : inside = underlying ∨
        (selectPlan t inside underlying mode).answer.carriesOver mode = true →
      (selectPlan t wrapper underlying mode).answer.isFailure = false)
    (h : (nullablePlan t inside target mode (some underlying)).answer.carriesOver mode = true) :
    (nullablePlan t wrapper target mode (some underlying)).answer.isFailure = false := by
  obtain ⟨hexplicit, hinside⟩ := explicit_of_carriesOver_nullablePlan h
  rw [answer_nullablePlan_some]
  split
  · rfl
  split
  · rfl
  · rw [if_pos ⟨hexplicit, hne⟩, hinner hinside]
    rfl

-- The induction is on the number of the target, since the type inside a nullable is older.
theorem isFailure_selectPlan_wrapper (ho : t.kind .object = .object) (hne : wrapper ≠ .object)
    (hu : t.extensibleUnderlying? wrapper = some inside)
    (h : (selectPlan t inside target mode).answer.carriesOver mode = true) :
    (selectPlan t wrapper target mode).answer.isFailure = false := by
  induction hn : target.index using Nat.strongRecOn generalizing target with
  | _ n ih =>
      cases hd : directPlan? t inside target mode with
      | some plan =>
          rw [answer_selectPlan_of_directPlan? hd] at h
          exact isFailure_selectPlan_of_isSome (isSome_directPlan?_wrapper ho hu hd h)
      | none =>
          cases hw : directPlan? t wrapper target mode with
          | some plan => exact isFailure_selectPlan_of_isSome (by rw [hw, Option.isSome_some])
          | none =>
              rw [answer_selectPlan_of_none hd] at h
              rw [answer_selectPlan_of_none hw]
              cases hunder : t.nullableUnderlying? target with
              | none =>
                  rw [hunder, answer_nullablePlan_none, carriesOver_lastResort] at h
                  cases h
              | some underlying =>
                  rw [hunder] at h
                  have hlt := index_lt_of_nullableUnderlying? t hunder
                  refine isFailure_nullablePlan_wrapper hne ?_ h
                  rintro (rfl | hcarries)
                  · have hopen : (unwrapping? t wrapper inside).isSome :=
                      isSome_unwrapping? hu (.inl rfl)
                    exact isFailure_selectPlan_of_isSome (isSome_directPlan?_of_structural?
                      (isSome_structural?_of_unwrapping? hopen))
                  · exact ih underlying.index (hn ▸ hlt) hcarries rfl

-- Wrappers of a number, of such a wrapper, of an object and of null, with two nullable numbers.
def wrapperSteps : List BuildStep :=
  [.extensibleOf (.numeric .int32), .extensibleOf ⟨21⟩, .nullableOf (.numeric .int32),
    .extensibleOf .object, .extensibleOf .null, .nullableOf (.numeric .int64)]

def wrappers : TypeTable :=
  wrapperSteps.foldl (fun t s => (Building.outcome (s.run Building.nestingLimit) t).2) .initial

theorem reached_wrappers : wrappers.Reached := TypeTable.Reached.initial.foldl (by decide +kernel)

-- A value goes to the target and its wrapper does not.
def Blocks (t : TypeTable) (inside wrapper target : TypeId) (mode : ConversionMode) : Prop :=
  t.findInstance? .extensible [inside] = some wrapper ∧
    (resolve t inside target mode).answer.isSuccess = true ∧
    (resolve t wrapper target mode).answer.isSuccess = false

instance (t : TypeTable) (inside wrapper target : TypeId) (mode : ConversionMode) :
    Decidable (Blocks t inside wrapper target mode) :=
  inferInstanceAs (Decidable (_ ∧ _))

end Conversion

end EventScript
