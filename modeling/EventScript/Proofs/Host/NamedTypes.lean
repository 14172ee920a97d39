import EventScript.NameScope
import EventScript.Proofs.Host.OpenTypes
import EventScript.Proofs.Host.PlacedTypes

namespace EventScript

namespace TypeTable

variable {t : TypeTable} {id : TypeId}

theorem isGenericParameter_of_initial (hg : initial.GrowsTo t) (hc : initial.contains id = true)
    (hk : initial.isGenericParameter id = false) : t.isGenericParameter id = false := by
  rw [isGenericParameter, hg.kind_eq hc]
  exact hk

-- The types that every table starts with stay closed, except for the definitions among them and
-- their parameters.
theorem mentionsParameter_of_initial (hg : initial.GrowsTo t) (hc : initial.contains id = true)
    (hk : initial.isGenericParameter id = false) (hs : (initial.get id).shape = .plain) :
    t.mentionsParameter id = false :=
  mentionsParameter_of_plain (isGenericParameter_of_initial hg hc hk) ((hg.shape_eq hc).trans hs)

theorem mentionsParameter_object (hg : initial.GrowsTo t) : t.mentionsParameter .object = false :=
  mentionsParameter_of_initial hg (by decide) (by decide) (by decide)

theorem mentionsParameter_null (hg : initial.GrowsTo t) : t.mentionsParameter .null = false :=
  mentionsParameter_of_initial hg (by decide) (by decide) (by decide)

theorem mentionsParameter_boolean (hg : initial.GrowsTo t) :
    t.mentionsParameter .boolean = false :=
  mentionsParameter_of_initial hg (by decide) (by decide) (by decide)

theorem mentionsParameter_string (hg : initial.GrowsTo t) : t.mentionsParameter .string = false :=
  mentionsParameter_of_initial hg (by decide) (by decide) (by decide)

theorem mentionsParameter_numeric (hg : initial.GrowsTo t) (kind : NumericKind) :
    t.mentionsParameter (.numeric kind) = false := by
  cases kind <;> exact mentionsParameter_of_initial hg (by decide) (by decide) (by decide)

-- Every definition has a parameter to be applied to.
def DefinitionsTakeParameters (t : TypeTable) : Prop :=
  ∀ id, (t.get id).shape ≠ .definition []

theorem arguments_ne_nil (hw : t.WellFormed) (hd : t.DefinitionsTakeParameters)
    {definition : TypeId} {arguments : List TypeId}
    (hs : (t.get id).shape = .instanceOf definition arguments) : arguments ≠ [] := by
  rintro rfl
  obtain ⟨parameters, hp, hl⟩ := hw.exists_parameters hs
  rw [List.length_eq_zero_iff.mp hl] at hp
  exact hd definition hp

theorem contains_of_home {home : String} (h : (t.get id).home = some home) : t.contains id := by
  by_cases hc : id.index < t.size
  · exact contains_iff.mpr hc
  · rw [get_of_not_contains hc] at h
    cases h

-- What holds of the description of nothing and of all that a table holds.
theorem forall_get {P : TypeDef → Prop} (h : ∀ d ∈ t.types.toList, P d) (hnone : P default)
    (id : TypeId) : P (t.get id) := by
  by_cases hc : id.index < t.size
  · obtain ⟨d, hd, he⟩ := (contains_and_get_iff (P := (· = t.get id))).mp ⟨contains_iff.mpr hc, rfl⟩
    exact he ▸ h d (Array.mem_toList_iff.mpr (Array.mem_of_getElem? hd))
  · rwa [get_of_not_contains hc]

theorem definitionsTakeParameters_of_forall (h : ∀ d ∈ t.types.toList, d.shape ≠ .definition []) :
    t.DefinitionsTakeParameters :=
  forall_get h (by decide)

-- A type that goes by its name is no parameter, and without parameters it is closed.
structure NamedAs (t : TypeTable) (id : TypeId) (arity : Nat) : Prop where
  isNamed : (t.get id).isNamed = true
  arity_eq : (t.get id).arity = arity

namespace NamedAs

variable {arity : Nat}

theorem isGenericParameter (h : t.NamedAs id arity) : t.isGenericParameter id = false := by
  have hn := h.isNamed
  unfold TypeDef.isNamed at hn
  unfold TypeTable.isGenericParameter TypeTable.kind
  cases hk : (t.get id).kind <;> simp_all

theorem shape_eq_plain (h : t.NamedAs id 0) (hd : t.DefinitionsTakeParameters) :
    (t.get id).shape = .plain := by
  have hn := h.isNamed
  have ha := h.arity_eq
  cases hs : (t.get id).shape with
  | plain => rfl
  | definition parameters =>
      rw [TypeDef.arity, hs, GenericShape.parameters, List.length_eq_zero_iff] at ha
      exact absurd (ha ▸ hs) (hd id)
  | instanceOf definition arguments =>
      rw [TypeDef.isNamed, hs] at hn
      split at hn <;> simp_all

theorem mentionsParameter (h : t.NamedAs id 0) (hd : t.DefinitionsTakeParameters) :
    t.mentionsParameter id = false :=
  mentionsParameter_of_plain h.isGenericParameter (h.shape_eq_plain hd)

end NamedAs

theorem namedAs_of_find? (hw : t.WellFormed) {home name : String} {arity : Nat}
    (h : t.find? home name arity = some id) : t.NamedAs id arity := by
  obtain ⟨-, hn, hl⟩ := hw.lookup_names_eq_some.mp h
  simp only [TypeDef.lookupName, Prod.mk.injEq] at hl
  exact ⟨hn, hl.2.2⟩

end TypeTable

namespace NamespaceTree

variable {t : TypeTable} {tree : NamespaceTree}

-- Types are placed by the names that they go by.
def Places (t : TypeTable) (tree : NamespaceTree) : Prop :=
  ∀ p ∈ tree.placed, t.NamedAs p.type p.arity

theorem places_ofTable (t : TypeTable) : (ofTable t).Places t := by
  intro p hm
  obtain ⟨-, hlast⟩ := ((arranges_ofTable t).mem_placed_iff p).mp hm
  obtain ⟨-, hn, -, -, -, -, ha⟩ := TypeDef.spot?_eq_some_iff.mp hlast.spot?_eq
  exact ⟨hn, ha⟩

end NamespaceTree

end EventScript
