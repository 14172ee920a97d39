import EventScript.Proofs.Conversion.Wrappers
import EventScript.Proofs.Host.Assignability
import EventScript.Proofs.Host.BaseChain
import EventScript.Proofs.Host.Replacement
import EventScript.Proofs.Host.Standard

namespace EventScript

open MemberSearch Relation

namespace TypeTable

variable {t : TypeTable} {id target source : TypeId}

theorem kind_null (hg : initial.GrowsTo t) : t.kind .null = .null := (hg.kind_eq rfl).trans rfl

theorem isInstanceOf_null (hg : initial.GrowsTo t) (definition : TypeId) :
    t.isInstanceOf .null definition = false := by
  have hshape : (t.get .null).shape = .plain := (hg.shape_eq rfl).trans rfl
  simp [isInstanceOf, hshape]

theorem extensibleUnderlying?_null (hg : initial.GrowsTo t) :
    t.extensibleUnderlying? .null = none := by
  rw [extensibleUnderlying?, isInstanceOf_null hg, if_neg Bool.false_ne_true]

-- An instance of the nullables holds one type and is none that references are of.
theorem nullableUnderlying?_of_isInstanceOf (ht : t.Reached)
    (h : t.isInstanceOf id .nullable = true) :
    (t.nullableUnderlying? id).isSome = true ∧ t.isReferenceType id = false := by
  obtain ⟨hw, hg⟩ := ht.wellFormed
  unfold isInstanceOf at h
  split at h
  · rename_i definition arguments hs
    obtain rfl : definition = .nullable := of_decide_eq_true h
    obtain ⟨parameters, hp, hl⟩ := hw.exists_parameters hs
    have hshape : (t.get .nullable).shape = .definition [⟨18⟩] := (hg.shape_eq rfl).trans rfl
    have hkind : t.kind id = .structType :=
      (hw.kind_of_instance (contains_of_shape hs) hs).trans ((hg.kind_eq rfl).trans rfl)
    rw [hshape] at hp
    cases hp
    constructor
    · cases arguments with
      | nil => cases hl
      | cons inside rest =>
          simp [nullableUnderlying?, isInstanceOf, genericArguments, hs, GenericShape.arguments]
    · rw [isReferenceType, hkind]
  · cases h

-- What holds of the description of nothing and of all methods that a table holds.
theorem forall_method {P : MethodDef → Prop} (h : ∀ m ∈ t.methods.toList, P m) (hnone : P default)
    (id : MethodId) : P (t.method id) := by
  unfold method
  cases hm : t.methods[id.index]? with
  | none => exact hnone
  | some m => exact h m (Array.mem_toList_iff.mpr (Array.mem_of_getElem? hm))

theorem nullableUnderlying?_of_not_isInstanceOf (h : t.isInstanceOf id .nullable = false) :
    t.nullableUnderlying? id = none := by
  rw [nullableUnderlying?, h, if_neg Bool.false_ne_true]

theorem isAssignable_null_right (hk : t.kind .null = .null) :
    t.isAssignable target .null = true ↔ target = .null := by
  simp [isAssignable_iff, hk]

theorem isAssignable_null_left (hk : t.kind .null = .null)
    (hbases : ∀ id, t.base? id ≠ some .null) :
    t.isAssignable .null source = true ↔ source = .null := by
  have hchain : .null ∉ t.baseChain source := fun hm => by
    obtain ⟨last, -, hlast⟩ := TransGen.tail'_iff.mp (mem_baseChain_iff.mp hm)
    exact hbases last hlast
  rw [isAssignable_iff]
  simp [hk, hchain, isInterface, eq_comm]

end TypeTable

namespace Conversion

variable {t : TypeTable} {target : TypeId} {mode : ConversionMode}

-- No method that asks for one argument takes null, unless it asks for null itself.
theorem converts_null (hk : t.kind .null = .null)
    (hparameters : ∀ id, .null ∉ (t.method id).parameters) (isImplicit : Bool) (id : MethodId) :
    converts t .null target isImplicit id = false := by
  by_contra hc
  have hmethod : Plan.IsConversionMethod t .explicitCast isImplicit (t.method id) .null target :=
    isConversionMethod_of_converts ((Bool.not_eq_false _).mp hc) fun _ => rfl
  obtain ⟨-, -, -, ⟨parameter, hp, ha⟩, -, -⟩ := hmethod
  obtain rfl := (TypeTable.isAssignable_null_right hk).mp ha
  exact hparameters id (by rw [hp]; exact List.mem_singleton_self _)

theorem answer_userDefined?_null (hg : TypeTable.initial.GrowsTo t)
    (hparameters : ∀ id, .null ∉ (t.method id).parameters) :
    (userDefined? t .null target mode).answer = none := by
  unfold userDefined?
  simp only [TypeTable.extensibleUnderlying?_null hg, answer_firstMethod?, List.findSome?_eq_none_iff]
  intro query _
  rw [MethodQuery.plan?, Option.map_eq_none_iff, List.find?_eq_none]
  intro id _
  rw [converts_null (TypeTable.kind_null hg) hparameters]
  exact Bool.false_ne_true

-- None of the rules in front of those that are meant for null applies to it.
theorem directPlan?_null (hg : TypeTable.initial.GrowsTo t)
    (hparameters : ∀ id, .null ∉ (t.method id).parameters) (hne : target ≠ .null) :
    directPlan? t .null target mode = none := by
  have hk := TypeTable.kind_null hg
  have hassignable : ¬t.isAssignable target .null = true := fun h =>
    hne ((TypeTable.isAssignable_null_right hk).mp h)
  have hstructural : structural? t .null target = none := by
    simp [structural?, Ne.symm hne, TypeTable.isValueType, hk, hassignable, unwrapping?,
      TypeTable.extensibleUnderlying?_null hg]
  have hwidening : widening? t .null target = none := by
    simp [widening?, TypeTable.numericKind?, hk]
  rw [directPlan?, hstructural, answer_userDefined?_null hg hparameters, hwidening]
  rfl

-- A script that forces null into a type gets no further: null is no type that another one is
-- derived from.
theorem lastResort_null (hk : t.kind .null = .null) (hbases : ∀ id, t.base? id ≠ some .null)
    (hne : target ≠ .null) (hreference : t.isReferenceType target = false) :
    lastResort t .null target mode = .failure mode := by
  have hassignable : ¬t.isAssignable .null target = true := fun h =>
    hne ((TypeTable.isAssignable_null_left hk hbases).mp h)
  have hforced : forced? t .null target mode = none := by
    simp [forced?, TypeTable.numericKind?, hk, hassignable]
  simp [lastResort, hreference, hforced]

end Conversion

end EventScript
