import EventScript.Binding.Operators
import EventScript.Proofs.Conversion.Rules
import EventScript.Proofs.Host.TypeTable

namespace EventScript

open MemberSearch

namespace NumericKind

theorem widensTo_of_promoted {kind target : NumericKind}
    (h : kind.promoted.widensTo target = true) : kind.widensTo target = true := by
  revert h
  cases kind <;> cases target <;> decide

theorem widensTo_of_common? {left right kind : NumericKind} (h : left.common? right = some kind) :
    left.widensTo kind = true ∧ right.widensTo kind = true := by
  have hboth := List.find?_some h
  rw [Bool.and_eq_true] at hboth
  exact ⟨widensTo_of_promoted hboth.1, widensTo_of_promoted hboth.2⟩

end NumericKind

theorem TypeTable.numericKind?_numeric {t : TypeTable} (hg : initial.GrowsTo t)
    (kind : NumericKind) : t.numericKind? (.numeric kind) = some kind := by
  have hinitial : initial.contains (.numeric kind) ∧
      initial.kind (.numeric kind) = .numeric kind := by
    cases kind <;> decide
  rw [numericKind?, hg.kind_eq hinitial.1, hinitial.2]

namespace Conversion

variable {t : TypeTable} {source target : TypeId}

-- The conversion goes through wherever a script does not ask for one.
def Convertible (t : TypeTable) (source target : TypeId) : Prop :=
  (selectPlan t source target .implicitCast).answer.isFailure = false

theorem convertible_of_structural? (h : (structural? t source target).isSome) :
    Convertible t source target :=
  isFailure_selectPlan_of_isSome (isSome_directPlan?_of_structural? h)

theorem convertible_self (type : TypeId) : Convertible t type type :=
  convertible_of_structural? (by simp [structural?])

theorem convertible_of_isAssignable (h : t.isAssignable target source = true) :
    Convertible t source target :=
  convertible_of_structural? (isSome_structural?_of_isAssignable h)

theorem convertible_of_widening? (h : (widening? t source target).isSome) :
    Convertible t source target :=
  isFailure_selectPlan_of_isSome (isSome_directPlan?_of_widening? h)

-- A wrapper is left by assignability or widening.
theorem convertible_of_unwrapping? (h : (unwrapping? t source target).isSome) :
    Convertible t source target :=
  convertible_of_structural? (isSome_structural?_of_unwrapping? h)

theorem convertible_null
    (h : t.isReferenceType target = true ∨ (t.nullableUnderlying? target).isSome) :
    Convertible t .null target := by
  cases hd : directPlan? t .null target .implicitCast with
  | some plan => exact isFailure_selectPlan_of_isSome (by rw [hd, Option.isSome_some])
  | none =>
      rw [Convertible, answer_selectPlan_of_none hd]
      cases hu : t.nullableUnderlying? target with
      | some underlying => simp [answer_nullablePlan_some, Plan.isFailure]
      | none =>
          have hreference : t.isReferenceType target = true := by simpa [hu] using h
          simp [answer_nullablePlan_none, lastResort, hreference, Plan.isFailure]

-- The arguments that the levels of overload resolution let pass for a closed parameter.
theorem finds_isPossible {level : NarrowingLevel} (hl : level ∈ [.none, .one]) :
    Finds (MemberCache.Sound t) (isPossible t source target level) fun possible =>
      possible = true → Convertible t source target := by
  refine (steady_isPossible source target level).finds.imp fun possible ha hp => ?_
  rw [ha] at hp
  rcases List.mem_pair.mp hl with rfl | rfl
  · exact convertible_of_isAssignable hp
  · exact (Bool.not_eq_true' _).mp hp

theorem isSome_widening? {sourceKind targetKind : NumericKind}
    (hs : t.numericKind? source = some sourceKind) (ht : t.numericKind? target = some targetKind)
    (h : sourceKind.widensTo targetKind = true) : (widening? t source target).isSome := by
  simp [widening?, hs, ht, h]

end Conversion

namespace Binding

open Conversion

variable {t : TypeTable} {left right : TypeId} {signature : BinarySignature}

theorem convertible_of_numericOperand? (hg : TypeTable.initial.GrowsTo t) {operand : TypeId}
    {kind target : NumericKind} (h : numericOperand? t operand = some kind)
    (hw : kind.widensTo target = true) : Convertible t operand (.numeric target) := by
  have htarget := TypeTable.numericKind?_numeric hg target
  unfold numericOperand? at h
  cases hk : t.numericKind? operand with
  | some own =>
      obtain rfl : own = kind := by simpa [hk] using h
      exact convertible_of_widening? (isSome_widening? hk htarget hw)
  | none =>
      rw [hk] at h
      obtain ⟨underlying, hu, hk⟩ := Option.bind_eq_some_iff.mp h
      have hwiden := isSome_widening? hk htarget hw
      refine convertible_of_unwrapping? ?_
      simp only [unwrapping?, hu, Option.bind_eq_bind, Option.bind_some]
      split
      · rfl
      split
      · rfl
      · rwa [Option.isSome_map]

theorem widensTo_of_signedResult? {op : UnaryOperator} {kind result : NumericKind}
    (h : signedResult? op kind = some result) : kind.widensTo result = true := by
  revert h
  cases op <;> cases kind <;> cases result <;> decide

theorem convertible_of_isComparable (h : isComparable t left right = true) :
    Convertible t left right := by
  simp only [isComparable, Bool.or_eq_true, Bool.and_eq_true, decide_eq_true_eq] at h
  rcases h with (rfl | ⟨rfl, h⟩) | ⟨-, h⟩
  · exact convertible_self left
  · exact convertible_null h
  · exact convertible_of_isAssignable h

-- The types that the operands of a comparison are brought to.
theorem convertible_of_equality? (h : equality? t left right = some signature) :
    Convertible t left signature.left ∧ Convertible t right signature.right := by
  unfold equality? at h
  split at h
  · rename_i hboth
    obtain rfl := Option.some.inj h
    exact ⟨hboth.1 ▸ convertible_self left, hboth.2 ▸ convertible_self right⟩
  split at h
  · rename_i hc
    obtain rfl := Option.some.inj h
    exact ⟨convertible_self left, convertible_of_isComparable hc⟩
  split at h
  · rename_i hc
    obtain rfl := Option.some.inj h
    exact ⟨convertible_of_isComparable hc, convertible_self right⟩
  · cases h

theorem convertible_of_numericSignature? (hg : TypeTable.initial.GrowsTo t) {op : BinaryOperator}
    {leftKind rightKind : NumericKind} (hl : numericOperand? t left = some leftKind)
    (hr : numericOperand? t right = some rightKind)
    (h : numericSignature? op leftKind rightKind = some signature) :
    Convertible t left signature.left ∧ Convertible t right signature.right := by
  obtain ⟨kind, hk, rfl⟩ := Option.map_eq_some_iff.mp h
  obtain ⟨hleft, hright⟩ := NumericKind.widensTo_of_common? hk
  exact ⟨convertible_of_numericOperand? hg hl hleft, convertible_of_numericOperand? hg hr hright⟩

end Binding

end EventScript
