import EventScript.Proofs.Conversion.Modes
import EventScript.Proofs.Host.Assignability

namespace EventScript

open MemberSearch

namespace TypeTable

variable {t : TypeTable} {id : TypeId}

-- What is left of a type when it is taken out of all the nullables around it.
def innermost (t : TypeTable) (id : TypeId) : TypeId :=
  match _h : t.nullableUnderlying? id with
  | some underlying => t.innermost underlying
  | none => id
termination_by id.index
decreasing_by exact Conversion.index_lt_of_nullableUnderlying? t _h

theorem innermost_of_some {underlying : TypeId} (h : t.nullableUnderlying? id = some underlying) :
    t.innermost id = t.innermost underlying := by
  rw [innermost]
  split
  · rename_i inside hi
    rw [h] at hi
    obtain rfl := Option.some.inj hi
    rfl
  · rename_i hi
    rw [h] at hi
    cases hi

theorem innermost_of_none (h : t.nullableUnderlying? id = none) : t.innermost id = id := by
  rw [innermost]
  split
  · rename_i inside hi
    rw [h] at hi
    cases hi
  · rfl

theorem openDefinition_of_nullableUnderlying? (h : (t.nullableUnderlying? id).isSome = true) :
    t.openDefinition id = .nullable := by
  unfold nullableUnderlying? isInstanceOf at h
  unfold openDefinition
  cases hs : (t.get id).shape with
  | instanceOf definition arguments =>
      by_contra hne
      simp_all
  | plain => simp [hs] at h
  | definition parameters => simp [hs] at h

instance : Decidable (t.Rootless id) := inferInstanceAs (Decidable (_ ∧ _))

theorem rootless_of_nullable
    (h : ∀ i < t.size, t.openDefinition ⟨i⟩ = .nullable → t.Rootless ⟨i⟩) :
    ∀ id, t.openDefinition id = .nullable → t.Rootless id := by
  intro id hd
  by_cases hc : id.index < t.size
  · exact h id.index hc hd
  · rw [Rootless, base?, get_of_not_contains hc]
    exact ⟨rfl, rfl⟩

end TypeTable

namespace Conversion

variable {t : TypeTable} {source target : TypeId}

-- The last of the rules takes a type back to all that can stand for it.
theorem isFailure_lastResort_back (h : t.isAssignable target source = true) :
    (lastResort t target source .explicitCast).isFailure = false := by
  have hforced : (forced? t target source .explicitCast).isSome := by
    unfold forced?
    split
    · rfl
    · rw [if_pos h, Option.isSome_some]
  obtain ⟨plan, hplan⟩ := Option.isSome_iff_exists.mp hforced
  have happlies : plan.Applies t .explicitCast target source := applies_of_forced? rfl hplan
  unfold lastResort
  split
  · rfl
  · rw [hplan]
    exact happlies.isFailure_eq

-- `Object` goes to a nullable as to any other type.
theorem isFailure_selectPlan_back (h : t.isAssignable target source = true)
    (hu : target = .object ∨ t.nullableUnderlying? source = none) :
    (selectPlan t target source .explicitCast).answer.isFailure = false := by
  apply isFailure_selectPlan_of_nullablePlan
  cases hinside : t.nullableUnderlying? source with
  | none => exact isFailure_lastResort_back h
  | some underlying =>
      have hobject : target = .object := by simpa [hinside] using hu
      rw [answer_nullablePlan_some]
      split
      · rfl
      split
      · rfl
      · rw [if_neg fun hgo => hgo.2 hobject]
        exact isFailure_lastResort_back h

-- Any other type that everything passes for goes into a nullable by what is inside. The induction
-- is on the number of the nullable, which is younger than what is inside.
theorem isFailure_selectPlan_back_of_kind (hk : t.kind target = .object) (hobject : target ≠ .object)
    (hvoid : t.kind (t.innermost source) ≠ .void) (hnull : t.kind (t.innermost source) ≠ .null) :
    (selectPlan t target source .explicitCast).answer.isFailure = false := by
  induction hn : source.index using Nat.strongRecOn generalizing source with
  | _ n ih =>
      cases hu : t.nullableUnderlying? source with
      | none =>
          rw [TypeTable.innermost_of_none hu] at hvoid hnull
          have hassignable : t.isAssignable target source = true :=
            TypeTable.isAssignable_iff.mpr (.inr ⟨hvoid, hnull, by simp [hk], .inl hk⟩)
          exact isFailure_selectPlan_back hassignable (.inr hu)
      | some underlying =>
          rw [TypeTable.innermost_of_some hu] at hvoid hnull
          have hinside := ih underlying.index (hn ▸ index_lt_of_nullableUnderlying? t hu)
            hvoid hnull rfl
          apply isFailure_selectPlan_of_nullablePlan
          rw [hu, answer_nullablePlan_some]
          split
          · rfl
          split
          · rfl
          · rw [if_pos ⟨rfl, hobject⟩, hinside]
            rfl

-- A nullable without base types and interfaces passes for nothing but what everything passes for.
theorem kind_eq_object_of_isAssignable
    (hnullable : ∀ id, t.openDefinition id = .nullable → t.Rootless id) (hne : source ≠ target)
    (h : t.isAssignable target source = true) (hu : (t.nullableUnderlying? source).isSome) :
    t.kind target = .object := by
  have hrootless := hnullable source (TypeTable.openDefinition_of_nullableUnderlying? hu)
  rcases TypeTable.isAssignable_iff.mp h with he | ⟨-, -, -, hk | hb | ⟨-, hf⟩⟩
  · exact absurd he.symm hne
  · exact hk
  · rw [TypeTable.baseChain_eq_nil hrootless.1] at hb
    cases hb
  · rw [hrootless.allInterfaces_eq_nil] at hf
    cases hf

-- Another type that everything passes for, a nullable number in a nullable, and a nullable of
-- nothing.
def nestedSteps : List BuildStep :=
  [.define "Demo" "Any" .object,
    .nullableOf (.numeric .int32),
    .nullableOf ⟨22⟩,
    .nullableOf .void]

def nested : TypeTable :=
  nestedSteps.foldl (fun t s => (Building.outcome (s.run Building.nestingLimit) t).2) .initial

theorem rootless_nested : ∀ id, nested.openDefinition id = .nullable → nested.Rootless id :=
  TypeTable.rootless_of_nullable (by decide +kernel)

end Conversion

end EventScript
