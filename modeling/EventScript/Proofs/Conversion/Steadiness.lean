import EventScript.NameScope
import EventScript.Proofs.Conversion.Applicability

namespace EventScript

open MemberSearch

namespace Conversion

variable {t : TypeTable}

theorem steady_firstMethod? (source target : TypeId) (queries : List MethodQuery) :
    Steady t (firstMethod? t source target queries) := by
  induction queries with
  | nil => exact .pure none
  | cons query queries ih =>
      refine (steady_lookup query.owner query.name).bind ?_
      split
      · exact .pure _
      · exact ih

theorem steady_userDefined? (source target : TypeId) (mode : ConversionMode) :
    Steady t (userDefined? t source target mode) := by
  unfold userDefined?
  split
  · exact (steady_firstMethod? _ _ _).bind (.pure _)
  · exact steady_firstMethod? _ _ _

theorem steady_nullablePlan {source target : TypeId} {mode : ConversionMode}
    {inside : Option TypeId}
    (h : ∀ underlying ∈ inside, Steady t (selectPlan t source underlying mode)) :
    Steady t (nullablePlan t source target mode inside) := by
  cases inside with
  | none => exact .pure _
  | some underlying =>
      simp only [nullablePlan]
      split_ifs
      · exact .pure _
      · exact .pure _
      · exact (h underlying rfl).bind (.pure _)
      · exact .pure _

-- The induction is that of the choice itself: on the number of the target.
theorem steady_selectPlan (source target : TypeId) (mode : ConversionMode) :
    Steady t (selectPlan t source target mode) := by
  induction hn : target.index using Nat.strongRecOn generalizing target with
  | _ n ih =>
      rw [selectPlan_eq]
      split
      · exact .pure _
      refine (steady_userDefined? source target mode).bind ?_
      split
      · exact .pure _
      split
      · exact .pure _
      refine steady_nullablePlan fun underlying hu => ?_
      have hlt := index_lt_of_nullableUnderlying? t hu
      exact ih underlying.index (hn ▸ hlt) underlying rfl

theorem steady_resolve (source target : TypeId) (mode : ConversionMode) :
    Steady t (resolve t source target mode) :=
  (steady_selectPlan source target mode).bind (.pure _)

theorem steady_isPossible (source target : TypeId) (level : NarrowingLevel) :
    Steady t (isPossible t source target level) := by
  unfold isPossible
  split
  · exact .pure _
  · exact (steady_selectPlan _ _ _).bind (.pure _)

end Conversion

theorem Descriptor.steady_conversion? {t : TypeTable} (descriptor : Descriptor)
    (source : TypeId) : Steady t (descriptor.conversion? t source) := by
  unfold Descriptor.conversion?
  split
  · exact (Conversion.steady_resolve _ _ _).bind (.pure _)
  · exact (Conversion.steady_resolve _ _ _).bind (.pure _)
  · exact .pure none

namespace NameScope

variable {r : Runtime}

theorem steady_providedMethods (name : String) (providers : List TypeId) :
    Steady r.types (providedMethods r name providers) := by
  induction providers with
  | nil => exact .pure []
  | cons provider rest ih => exact (steady_members provider).bind (ih.bind (.pure _))

theorem steady_extensionMethods (scope : NameScope) (receiver : TypeId) (name : String) :
    Steady r.types (scope.extensionMethods r receiver name) :=
  (steady_providedMethods name _).bind (.pure _)

end NameScope

end EventScript
