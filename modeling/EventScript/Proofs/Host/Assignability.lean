import EventScript.Proofs.Host.Inheritance
import EventScript.Proofs.Host.Reached

namespace EventScript

open Building Relation

namespace TypeTable

variable {t : TypeTable} {id base face target mid source : TypeId}

theorem isAssignable_iff : t.isAssignable target source = true ↔
    target = source ∨ (t.kind source ≠ .void ∧ t.kind source ≠ .null ∧ t.kind target ≠ .void ∧
      (t.kind target = .object ∨ target ∈ t.baseChain source ∨
        (t.isInterface target = true ∧ target ∈ t.allInterfaces source))) := by
  unfold isAssignable
  by_cases he : target = source
  · simp [he]
  rw [if_neg he]
  split
  · rename_i hvoid
    simp [he, hvoid]
  · rename_i hnull
    simp [he, hnull]
  · rename_i htarget _ _
    simp [he, htarget]
  · rename_i hobject hvoid hnull
    simpa [he, hobject] using ⟨hvoid, hnull⟩
  · rename_i htarget hobject hvoid hnull
    have hkinds : t.kind source ≠ .void ∧ t.kind source ≠ .null ∧ t.kind target ≠ .void :=
      ⟨hvoid, hnull, htarget⟩
    simp [he, hkinds, show t.kind target ≠ .object from hobject]

-- A type that is derived from nothing.
def Rootless (t : TypeTable) (id : TypeId) : Prop := t.base? id = none ∧ (t.get id).interfaces = []

theorem eq_of_reflTransGen_derives (hb : t.base? id = none) (h : ReflTransGen t.Derives id base) :
    base = id := by
  rcases reflTransGen_iff_eq_or_transGen.mp h with he | hd
  · exact he
  · obtain ⟨next, hnext, -⟩ := TransGen.head'_iff.mp hd
    rw [Derives, hb] at hnext
    cases hnext

theorem baseChain_eq_nil (hb : t.base? id = none) : t.baseChain id = [] := by
  rw [List.eq_nil_iff_forall_not_mem]
  intro base hm
  obtain ⟨next, hnext, -⟩ := TransGen.head'_iff.mp (mem_baseChain_iff.mp hm)
  rw [Derives, hb] at hnext
  cases hnext

theorem Rootless.allInterfaces_eq_nil (h : t.Rootless id) : t.allInterfaces id = [] := by
  rw [List.eq_nil_iff_forall_not_mem]
  intro face hf
  obtain ⟨current, hc, hn⟩ := mem_allInterfaces_iff.mp hf
  obtain rfl := eq_of_reflTransGen_derives h.1 hc
  obtain ⟨start, hs, -⟩ := TransGen.head'_iff.mp hn
  rw [Names, h.2] at hs
  cases hs

-- A type has the bases and the interfaces of its bases, and the interfaces of its interfaces.

theorem mem_baseChain_trans (hm : mid ∈ t.baseChain source) (hb : base ∈ t.baseChain mid) :
    base ∈ t.baseChain source :=
  mem_baseChain_iff.mpr ((mem_baseChain_iff.mp hm).trans (mem_baseChain_iff.mp hb))

theorem mem_allInterfaces_of_base (hm : mid ∈ t.baseChain source)
    (hf : face ∈ t.allInterfaces mid) : face ∈ t.allInterfaces source := by
  obtain ⟨current, hc, hn⟩ := mem_allInterfaces_iff.mp hf
  have hbases : ReflTransGen t.Derives source mid := (mem_baseChain_iff.mp hm).to_reflTransGen
  exact mem_allInterfaces_iff.mpr ⟨current, hbases.trans hc, hn⟩

-- The search does not look for bases of interfaces.
theorem mem_allInterfaces_of_interface (hb : t.base? mid = none) (hm : mid ∈ t.allInterfaces source)
    (hf : face ∈ t.allInterfaces mid) : face ∈ t.allInterfaces source := by
  obtain ⟨current, hc, hn⟩ := mem_allInterfaces_iff.mp hf
  rw [eq_of_reflTransGen_derives hb hc] at hn
  obtain ⟨start, hs, hm⟩ := mem_allInterfaces_iff.mp hm
  exact mem_allInterfaces_iff.mpr ⟨start, hs, hm.trans hn⟩

-- What passes for a type passes for all that the type itself passes for. The type in the middle may
-- be one that everything passes for: then it must not be derived from anything, as `Object` is not.
-- Circles of interfaces do no harm.
theorem isAssignable_trans (hfaces : ∀ id, t.isInterface id = true → t.base? id = none)
    (hobject : t.Rootless .object)
    (hmid : t.kind mid = .object → mid = .object ∨ t.Rootless mid)
    (htm : t.isAssignable target mid = true) (hms : t.isAssignable mid source = true) :
    t.isAssignable target source = true := by
  rcases isAssignable_iff.mp hms with rfl | ⟨hvoid, hnull, -, hup⟩
  · exact htm
  rcases isAssignable_iff.mp htm with rfl | ⟨-, -, htarget, htm⟩
  · exact hms
  refine isAssignable_iff.mpr (.inr ⟨hvoid, hnull, htarget, ?_⟩)
  rcases htm with ho | htm
  · exact .inl ho
  right
  rcases hup with ho | hb | ⟨hi, hf⟩
  · have hrootless : t.Rootless mid := by
      rcases hmid ho with rfl | h
      · exact hobject
      · exact h
    rw [baseChain_eq_nil hrootless.1, hrootless.allInterfaces_eq_nil] at htm
    simp at htm
  · rcases htm with hb' | ⟨hi, hf⟩
    · exact .inl (mem_baseChain_trans hb hb')
    · exact .inr ⟨hi, mem_allInterfaces_of_base hb hf⟩
  · have hbase := hfaces mid hi
    rcases htm with hb' | ⟨hi', hf'⟩
    · rw [baseChain_eq_nil hbase] at hb'
      cases hb'
    · exact .inr ⟨hi', mem_allInterfaces_of_interface hbase hf hf'⟩

theorem base?_eq_none_of_isInterface
    (h : ∀ i < t.size, t.isInterface ⟨i⟩ = true → t.base? ⟨i⟩ = none) :
    ∀ id, t.isInterface id = true → t.base? id = none := by
  intro id hi
  by_contra hb
  obtain ⟨base, hb'⟩ := Option.ne_none_iff_exists'.mp hb
  exact hb (h id.index (index_lt_of_base? hb') hi)

-- Two interfaces that extend each other, a class with one of them, and a class derived from that.
def circledSteps : List BuildStep :=
  [.define "Demo" "Front" .interfaceType,
    .define "Demo" "Back" .interfaceType,
    .addInterface ⟨21⟩ ⟨22⟩,
    .addInterface ⟨22⟩ ⟨21⟩,
    .define "Demo" "Coin" .classType,
    .addInterface ⟨23⟩ ⟨21⟩,
    .define "Demo" "Penny" .classType,
    .setBase ⟨24⟩ ⟨23⟩]

def circled : TypeTable :=
  circledSteps.foldl (fun t s => (outcome (s.run nestingLimit) t).2) .initial

theorem isAssignable_trans_circled :
    (∀ id, circled.isInterface id = true → circled.base? id = none) ∧ circled.Rootless .object ∧
      circled.isAssignable ⟨22⟩ ⟨23⟩ = true ∧ circled.isAssignable ⟨23⟩ ⟨24⟩ = true ∧
      circled.isAssignable ⟨22⟩ ⟨24⟩ = true := by
  have hfaces : ∀ id, circled.isInterface id = true → circled.base? id = none :=
    base?_eq_none_of_isInterface (by decide +kernel)
  have hobject : circled.Rootless .object := ⟨by decide +kernel, by decide +kernel⟩
  have hclass : circled.kind ⟨23⟩ ≠ .object := by decide +kernel
  have htm : circled.isAssignable ⟨22⟩ ⟨23⟩ = true := by decide +kernel
  have hms : circled.isAssignable ⟨23⟩ ⟨24⟩ = true := by decide +kernel
  exact ⟨hfaces, hobject, htm, hms,
    isAssignable_trans hfaces hobject (fun ho => absurd ho hclass) htm hms⟩

-- A second type that everything passes for, derived from a class.
def secondObjectSteps : List BuildStep :=
  [.define "Demo" "Base" .classType,
    .define "Demo" "Any" .object,
    .setBase ⟨22⟩ ⟨21⟩,
    .define "Demo" "Coin" .classType]

def secondObject : TypeTable :=
  secondObjectSteps.foldl (fun t s => (outcome (s.run nestingLimit) t).2) .initial

-- Everything passes for the second type, which passes for its base.
theorem not_isAssignable_trans :
    ¬∀ t : TypeTable, t.Reached → t.Acyclic →
      (∀ id, t.isInterface id = true → t.base? id = none) → t.Rootless .object →
      ∀ target mid source, t.isAssignable target mid = true → t.isAssignable mid source = true →
        t.isAssignable target source = true := by
  intro hall
  have hreached : secondObject.Reached := Reached.initial.foldl (by decide +kernel)
  have hacyclic : secondObject.Acyclic := acyclic_of_bases_older (by decide +kernel)
  have hfaces : ∀ id, secondObject.isInterface id = true → secondObject.base? id = none :=
    base?_eq_none_of_isInterface (by decide +kernel)
  have hobject : secondObject.Rootless .object := ⟨by decide +kernel, by decide +kernel⟩
  have hthrough := hall secondObject hreached hacyclic hfaces hobject ⟨21⟩ ⟨22⟩ ⟨23⟩
    (by decide +kernel) (by decide +kernel)
  exact absurd hthrough (by decide +kernel)

end TypeTable

end EventScript
