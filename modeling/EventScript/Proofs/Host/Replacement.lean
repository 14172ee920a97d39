import EventScript.Proofs.Host.TypeTable
import Mathlib.Data.List.Forall2

namespace EventScript

-- What a type is derived from: its base and its interfaces.
def TypeDef.parents (d : TypeDef) : Option TypeId × List TypeId := (d.base, d.interfaces)

namespace TypeTable

variable {t t' t'' : TypeTable} {replacements arguments own results : List TypeId}
  {id definition argument type result other : TypeId}

theorem contains_of_shape (hs : (t.get id).shape = .instanceOf definition own) :
    t.contains id := by
  by_cases hc : id.index < t.size
  · exact contains_iff.mpr hc
  · rw [get_of_not_contains hc] at hs
    cases hs

-- An instance is younger than all that it is made of.

theorem WellFormed.contains_definition (hw : t.WellFormed)
    (hs : (t.get id).shape = .instanceOf definition own) : t.contains definition := by
  have hc := contains_of_shape hs
  have hlt := (hw.definition_of_instance hc hs).1
  exact contains_iff.mpr (Nat.lt_trans hlt (contains_iff.mp hc))

theorem WellFormed.contains_argument (hw : t.WellFormed)
    (hs : (t.get id).shape = .instanceOf definition own) (ha : argument ∈ own) :
    t.contains argument := by
  have hc := contains_of_shape hs
  have hlt := (hw.definition_of_instance hc hs).2.1 argument ha
  exact contains_iff.mpr (Nat.lt_trans hlt (contains_iff.mp hc))

theorem WellFormed.exists_parameters (hw : t.WellFormed)
    (hs : (t.get id).shape = .instanceOf definition own) :
    ∃ parameters, (t.get definition).shape = .definition parameters ∧
      parameters.length = own.length :=
  (hw.definition_of_instance (contains_of_shape hs) hs).2.2

-- The second type is the first with its generic parameters replaced by position, all the way down.
-- A parameter stays where there is no replacement for it.
inductive Replaced (t : TypeTable) (replacements : List TypeId) : TypeId → TypeId → Prop
  | parameter {id : TypeId} {position : Nat} : t.kind id = .genericParameter position →
      Replaced t replacements id (replacements[position]?.getD id)
  | applied {id result definition : TypeId} {own results : List TypeId} :
      t.isGenericParameter id = false → (t.get id).shape = .instanceOf definition own →
      (t.get result).shape = .instanceOf definition results → own.length = results.length →
      (∀ a b, (a, b) ∈ own.zip results → Replaced t replacements a b) →
      Replaced t replacements id result
  | closed {id : TypeId} : t.contains id → t.isGenericParameter id = false →
      (∀ definition own, (t.get id).shape ≠ .instanceOf definition own) →
      Replaced t replacements id id

theorem isGenericParameter_of_kind {position : Nat} (hk : t.kind id = .genericParameter position) :
    t.isGenericParameter id = true := by
  rw [isGenericParameter, hk]

theorem contains_of_kind {position : Nat} (hk : t.kind id = .genericParameter position) :
    t.contains id := by
  by_cases hc : id.index < t.size
  · exact contains_iff.mpr hc
  · rw [kind, get_of_not_contains hc] at hk
    cases hk

theorem GrowsTo.isGenericParameter_eq (hg : t.GrowsTo t') (hc : t.contains id) :
    t'.isGenericParameter id = t.isGenericParameter id := by
  rw [isGenericParameter, isGenericParameter, hg.kind_eq hc]

-- Types that are added do not change what a type becomes.
theorem Replaced.grown (h : t.Replaced replacements type result) (hg : t.GrowsTo t') :
    t'.Replaced replacements type result := by
  induction h with
  | parameter hk => exact .parameter ((hg.kind_eq (contains_of_kind hk)).trans hk)
  | applied hk hs hr hl _ ih =>
      have hc := contains_of_shape hs
      refine .applied ?_ ((hg.shape_eq hc).trans hs) ?_ hl ih
      · rw [hg.isGenericParameter_eq hc, hk]
      · rw [hg.shape_eq (contains_of_shape hr), hr]
  | closed hc hk hs =>
      refine .closed (hg.contains hc) ?_ fun definition own => ?_
      · rw [hg.isGenericParameter_eq hc, hk]
      · rw [hg.shape_eq hc]
        exact hs definition own

theorem exists_mem_of_forall₂ {α β : Type} {R : α → β → Prop} {as : List α} {bs : List β} {a : α}
    (h : List.Forall₂ R as bs) (hm : a ∈ as) : ∃ b ∈ bs, R a b := by
  induction h with
  | nil => cases hm
  | @cons first b as bs hfirst _ ih =>
      rcases List.mem_cons.mp hm with rfl | hm
      · exact ⟨b, List.mem_cons_self, hfirst⟩
      · obtain ⟨other, ho, hr⟩ := ih hm
        exact ⟨other, List.mem_cons_of_mem _ ho, hr⟩

theorem forall₂_of_common {R S : TypeId → TypeId → Prop} {others : List TypeId}
    (h : List.Forall₂ (fun a b => ∀ c, R a c → S b c) own results)
    (h' : List.Forall₂ R own others) : List.Forall₂ S results others := by
  induction h generalizing others with
  | nil =>
      obtain rfl := List.forall₂_nil_left_iff.mp h'
      exact .nil
  | cons hfirst _ ih =>
      cases h' with
      | cons hr hrest => exact .cons (hfirst _ hr) (ih hrest)

-- A type becomes one type only, since there is one instance for each list of arguments.
theorem Replaced.unique (hw : t.WellFormed) (h : t.Replaced replacements type result)
    (h' : t.Replaced replacements type other) : result = other := by
  induction h generalizing other with
  | parameter hk =>
      have hp := isGenericParameter_of_kind hk
      cases h' with
      | parameter hk' => rw [TypeKind.genericParameter.inj (hk.symm.trans hk')]
      | applied hk' => exact absurd (hp.symm.trans hk') (by decide)
      | closed _ hk' => exact absurd (hp.symm.trans hk') (by decide)
  | @applied id result definition inner results hk hs hr hl _ ih =>
      cases h' with
      | parameter hk' => exact absurd (hk.symm.trans (isGenericParameter_of_kind hk')) (by decide)
      | applied _ hs' hr' hl' h' =>
          obtain ⟨rfl, rfl⟩ := GenericShape.instanceOf.inj (hs.symm.trans hs')
          have hinner : List.Forall₂ (fun a b => ∀ c, t.Replaced replacements a c → b = c) inner
              results := List.forall₂_iff_zip.mpr ⟨hl, fun hm _ => ih _ _ hm⟩
          have hresults := forall₂_of_common hinner
            (List.forall₂_iff_zip.mpr ⟨hl', fun hm => h' _ _ hm⟩)
          rw [List.forall₂_eq_eq_eq] at hresults
          rw [← hresults] at hr'
          have hresult := hw.findInstance?_eq_some.mpr ⟨contains_of_shape hr, hr⟩
          have hother := hw.findInstance?_eq_some.mpr ⟨contains_of_shape hr', hr'⟩
          exact Option.some.inj (hresult.symm.trans hother)
      | closed _ _ hs' => exact absurd hs (hs' _ _)
  | closed _ hk hs =>
      cases h' with
      | parameter hk' => exact absurd (hk.symm.trans (isGenericParameter_of_kind hk')) (by decide)
      | applied _ hs' => exact absurd hs' (hs _ _)
      | closed => rfl

-- An instance is derived from what its definition is derived from, as seen with its arguments.
structure Mirrors (t : TypeTable) (arguments : List TypeId) (definition applied : TypeDef) :
    Prop where
  base : Option.Rel (t.Replaced arguments) definition.base applied.base
  interfaces : List.Forall₂ (t.Replaced arguments) definition.interfaces applied.interfaces

theorem option_rel_imp {R S : TypeId → TypeId → Prop} (h : ∀ a b, R a b → S a b)
    {a b : Option TypeId} : Option.Rel R a b → Option.Rel S a b
  | .some hr => .some (h _ _ hr)
  | .none => .none

theorem option_rel_flip {R : TypeId → TypeId → Prop} {a b : Option TypeId} :
    Option.Rel R a b → Option.Rel (flip R) b a
  | .some hr => .some hr
  | .none => .none

theorem exists_of_option_rel {R : TypeId → TypeId → Prop} {a b : Option TypeId}
    (h : Option.Rel R a b) (ha : a = some id) : ∃ result, b = some result ∧ R id result := by
  subst ha
  cases h with
  | some hr => exact ⟨_, rfl, hr⟩

theorem Mirrors.grown {d e : TypeDef} (h : t.Mirrors arguments d e) (hg : t.GrowsTo t') :
    t'.Mirrors arguments d e where
  base := option_rel_imp (fun _ _ hr => hr.grown hg) h.base
  interfaces := h.interfaces.imp fun _ _ hr => hr.grown hg

-- The later table has the types of the earlier one as they were, and besides them only instances
-- that mirror their definitions, which are types of the earlier one.
structure Completes (t t' : TypeTable) : Prop where
  grows : t.GrowsTo t'
  get_eq : ∀ {id}, t.contains id → t'.get id = t.get id
  mirrored : ∀ {id}, t'.contains id → t.contains id ∨ ∃ definition arguments,
    t.contains definition ∧ (t'.get id).shape = .instanceOf definition arguments ∧
      t'.Mirrors arguments (t.get definition) (t'.get id)

theorem Completes.refl (t : TypeTable) : t.Completes t := ⟨.refl t, fun _ => rfl, .inl⟩

-- A definition is no instance, so it is not among the types that have been added.
theorem Completes.contains_definition (h : t.Completes t')
    (hc : t'.contains definition) {parameters : List TypeId}
    (hs : (t'.get definition).shape = .definition parameters) : t.contains definition := by
  rcases h.mirrored hc with hc | ⟨_, _, _, hi, _⟩
  · exact hc
  · cases hs.symm.trans hi

theorem Completes.trans (h : t.Completes t') (h' : t'.Completes t'') (hw : t''.WellFormed) :
    t.Completes t'' where
  grows := h.grows.trans h'.grows
  get_eq hc := (h'.get_eq (h.grows.contains hc)).trans (h.get_eq hc)
  mirrored {id} hc := by
    rcases h'.mirrored hc with hc' | ⟨definition, arguments, hd, hs, hm⟩
    · rw [h'.get_eq hc']
      refine (h.mirrored hc').imp_right ?_
      rintro ⟨definition, arguments, hd, hs, hm⟩
      exact ⟨definition, arguments, hd, hs, hm.grown h'.grows⟩
    · obtain ⟨parameters, hp, -⟩ := hw.exists_parameters hs
      rw [h'.get_eq hd] at hp
      have hd' : t.contains definition := h.contains_definition hd hp
      rw [h.get_eq hd'] at hm
      exact .inr ⟨definition, arguments, hd', hs, hm⟩

end TypeTable

end EventScript
