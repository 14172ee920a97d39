import EventScript.Proofs.Host.OpenTypes
import EventScript.Proofs.Host.Parameters

namespace EventScript

-- Whether no generic parameters occur but those of the list, and no definition by itself.
def TypeTree.isOver (t : TypeTable) (parameters : List TypeId) : TypeTree → Bool
  | node id arguments =>
    if t.isGenericParameter id then id ∈ parameters
    else
      match (t.get id).shape with
      | .plain => true
      | .definition _ => false
      | .instanceOf _ _ => (arguments.map (isOver t parameters)).and
termination_by tree => sizeOf tree

-- The positions of the generic parameters that occur in a type.
def TypeTree.positions (t : TypeTable) : TypeTree → List Nat
  | node id arguments =>
    match t.kind id with
    | .genericParameter position => [position]
    | _ => (arguments.map (positions t)).flatten
termination_by tree => sizeOf tree

namespace TypeTable

variable {t t' : TypeTable} {id definition type result other : TypeId}
  {parameters own replacements arguments results others : List TypeId} {position : Nat}

def isOver (t : TypeTable) (parameters : List TypeId) (id : TypeId) : Bool :=
  (t.tree id).isOver t parameters

theorem isOver_parameter (hk : t.isGenericParameter id = true) :
    t.isOver parameters id = true ↔ id ∈ parameters := by
  rw [isOver, tree_eq, TypeTree.isOver, if_pos hk, decide_eq_true_iff]

theorem isOver_plain (hk : t.isGenericParameter id = false) (hs : (t.get id).shape = .plain) :
    t.isOver parameters id = true := by
  rw [isOver, tree_eq, TypeTree.isOver, hk, hs]
  rfl

theorem isOver_definition (hk : t.isGenericParameter id = false)
    (hs : (t.get id).shape = .definition own) : t.isOver parameters id = false := by
  rw [isOver, tree_eq, TypeTree.isOver, hk, hs]
  rfl

theorem isOver_instanceOf (hk : t.isGenericParameter id = false)
    (hs : (t.get id).shape = .instanceOf definition own) :
    t.isOver parameters id = true ↔ ∀ a ∈ own, t.isOver parameters a = true := by
  rw [isOver, tree_eq, genericArguments_of_shape hs, TypeTree.isOver, hk, hs]
  simp [isOver, List.and]

theorem shape_eq_plain_of_isOver (hk : t.isGenericParameter id = false)
    (ho : t.isOver parameters id = true)
    (hs : ∀ definition own, (t.get id).shape ≠ .instanceOf definition own) :
    (t.get id).shape = .plain := by
  cases hshape : (t.get id).shape with
  | plain => rfl
  | definition own =>
      rw [isOver_definition hk hshape] at ho
      cases ho
  | instanceOf definition own => exact absurd hshape (hs definition own)

theorem isOver_mono {more : List TypeId} (hw : t.WellFormed) (hsub : parameters ⊆ more)
    (h : t.isOver parameters id = true) : t.isOver more id = true := by
  induction id using hw.type_induction with
  | parameter id hk => exact (isOver_parameter hk).mpr (hsub ((isOver_parameter hk).mp h))
  | plain id hk hs => exact isOver_plain hk hs
  | definition id own hk hs =>
      rw [isOver_definition hk hs] at h
      cases h
  | applied id definition own hk hs ih =>
      rw [isOver_instanceOf hk hs] at h ⊢
      exact fun a ha => ih a ha (h a ha)

theorem Replaced.contains (h : t.Replaced replacements id type) : t.contains id := by
  cases h with
  | parameter hk => exact contains_of_kind hk
  | applied _ hs => exact contains_of_shape hs
  | closed hc => exact hc

-- A type without parameters stays as it is, whatever they are replaced by.
theorem replaced_self (hw : t.WellFormed) (hc : t.contains id) (h : t.isOver [] id = true) :
    t.Replaced replacements id id := by
  induction id using hw.type_induction with
  | parameter id hk => exact absurd ((isOver_parameter hk).mp h) List.not_mem_nil
  | plain id hk hs =>
      refine .closed hc hk fun definition own hi => ?_
      cases hs.symm.trans hi
  | definition id own hk hs =>
      rw [isOver_definition hk hs] at h
      cases h
  | applied id definition own hk hs ih =>
      rw [isOver_instanceOf hk hs] at h
      have hself : List.Forall₂ (t.Replaced replacements) own own :=
        List.forall₂_same.mpr fun a ha => ih a ha (hw.contains_argument hs ha) (h a ha)
      exact .applied hk hs hs rfl fun a b hm => List.forall₂_zip hself hm

-- Types that are added do not change which parameters occur.
theorem isOver_grown (hw : t.WellFormed) (hg : t.GrowsTo t') (hc : t.contains id)
    (h : t.isOver parameters id = true) : t'.isOver parameters id = true := by
  have hkind {id : TypeId} (hc : t.contains id) {b : Bool} (hk : t.isGenericParameter id = b) :
      t'.isGenericParameter id = b := (hg.isGenericParameter_eq hc).trans hk
  induction id using hw.type_induction with
  | parameter id hk => exact (isOver_parameter (hkind hc hk)).mpr ((isOver_parameter hk).mp h)
  | plain id hk hs => exact isOver_plain (hkind hc hk) ((hg.shape_eq hc).trans hs)
  | definition id own hk hs =>
      rw [isOver_definition hk hs] at h
      cases h
  | applied id definition own hk hs ih =>
      rw [isOver_instanceOf hk hs] at h
      rw [isOver_instanceOf (hkind hc hk) ((hg.shape_eq hc).trans hs)]
      exact fun a ha => ih a ha (hw.contains_argument hs ha) (h a ha)

-- The parameters of a list count their positions, and there is a replacement for each of them.
structure Replaces (t : TypeTable) (parameters replacements : List TypeId) : Prop where
  kind_eq : ∀ i p, parameters[i]? = some p → t.kind p = .genericParameter i
  length_eq : parameters.length = replacements.length

-- A parameter of the list is one of those that have a replacement.
theorem Replaces.lt_length (h : t.Replaces parameters replacements)
    (ho : t.isOver parameters id = true) (hk : t.kind id = .genericParameter position) :
    position < replacements.length := by
  have hm := (isOver_parameter (isGenericParameter_of_kind hk)).mp ho
  obtain ⟨i, hi⟩ := List.mem_iff_getElem?.mp hm
  obtain rfl := TypeKind.genericParameter.inj ((h.kind_eq i id hi).symm.trans hk)
  rw [← h.length_eq]
  exact (List.getElem?_eq_some_iff.mp hi).1

-- Replacing twice: what becomes of a type for some arguments becomes, if the arguments themselves
-- are replaced, what becomes of the type for those that they have been replaced by.
theorem Replaced.comp (hw : t.WellFormed) (hp : t.Replaces parameters own)
    (ho : t.isOver parameters id = true) (hown : List.Forall₂ (t.Replaced replacements) own others)
    (h : t.Replaced own id type) (h' : t.Replaced others id other) :
    t.Replaced replacements type other := by
  induction h generalizing other with
  | @parameter id position hk =>
      have hlt := hp.lt_length ho hk
      have hlt' : position < others.length := hown.length_eq ▸ hlt
      cases h' with
      | parameter hk' =>
          obtain rfl := TypeKind.genericParameter.inj (hk.symm.trans hk')
          rw [List.getElem?_eq_getElem hlt, List.getElem?_eq_getElem hlt']
          exact hown.get hlt hlt'
      | applied hk' => exact absurd (hk'.symm.trans (isGenericParameter_of_kind hk)) (by decide)
      | closed _ hk' => exact absurd (hk'.symm.trans (isGenericParameter_of_kind hk)) (by decide)
  | @applied id type definition inner results hk hs hr hl _ ih =>
      cases h' with
      | parameter hk' => exact absurd (hk.symm.trans (isGenericParameter_of_kind hk')) (by decide)
      | applied _ hs' hr' hl' h' =>
          obtain ⟨rfl, rfl⟩ := GenericShape.instanceOf.inj (hs.symm.trans hs')
          rw [isOver_instanceOf hk hs] at ho
          have hinner : List.Forall₂ (fun a b => ∀ c, t.Replaced others a c →
              t.Replaced replacements b c) inner results := List.forall₂_iff_zip.mpr
            ⟨hl, fun hm _ => ih _ _ hm (ho _ (List.of_mem_zip hm).1)⟩
          have hresults := forall₂_of_common hinner
            (List.forall₂_iff_zip.mpr ⟨hl', fun hm => h' _ _ hm⟩)
          have hkind := (isGenericParameter_of_instanceOf hw hr).trans
            ((isGenericParameter_of_instanceOf hw hs).symm.trans hk)
          obtain ⟨hlength, hzip⟩ := List.forall₂_iff_zip.mp hresults
          exact .applied hkind hr hr' hlength fun a b hm => hzip hm
      | closed _ _ hs' => exact absurd hs (hs' _ _)
  | closed hc hk hs =>
      cases h' with
      | parameter hk' => exact absurd (hk.symm.trans (isGenericParameter_of_kind hk')) (by decide)
      | applied _ hs' => exact absurd hs' (hs _ _)
      | closed => exact .closed hc hk hs

-- What types over one list of parameters become with types over another list is over that list.
theorem Replaced.isOver (hw : t.WellFormed) {more : List TypeId} (hp : t.Replaces parameters own)
    (hown : ∀ a ∈ own, t.isOver more a = true) (ho : t.isOver parameters id = true)
    (h : t.Replaced own id type) : t.isOver more type = true := by
  induction h with
  | @parameter id position hk =>
      have hlt := hp.lt_length ho hk
      rw [List.getElem?_eq_getElem hlt]
      exact hown _ (List.getElem_mem hlt)
  | @applied id type definition inner results hk hs hr hl _ ih =>
      rw [isOver_instanceOf hk hs] at ho
      have hkind := (isGenericParameter_of_instanceOf hw hr).trans
        ((isGenericParameter_of_instanceOf hw hs).symm.trans hk)
      have hresults : List.Forall₂ (fun _ b => t.isOver more b = true) inner results :=
        List.forall₂_iff_zip.mpr ⟨hl, fun hm => ih _ _ hm (ho _ (List.of_mem_zip hm).1)⟩
      refine (isOver_instanceOf hkind hr).mpr fun b hb => ?_
      obtain ⟨a, -, hover⟩ := exists_mem_of_forall₂ hresults.flip hb
      exact hover
  | closed _ hk hs => exact isOver_plain hk (shape_eq_plain_of_isOver hk ho hs)

-- Which parameters need a replacement

def positions (t : TypeTable) (id : TypeId) : List Nat := (t.tree id).positions t

theorem positions_parameter (hk : t.kind id = .genericParameter position) :
    t.positions id = [position] := by
  rw [positions, tree_eq, TypeTree.positions, hk]

theorem positions_eq (hk : t.isGenericParameter id = false) :
    t.positions id = ((t.genericArguments id).map t.positions).flatten := by
  rw [positions, tree_eq, TypeTree.positions]
  split
  · rename_i position hp
    rw [isGenericParameter_of_kind hp] at hk
    cases hk
  · rw [List.map_map]
    rfl

theorem mem_positions_instanceOf (hk : t.isGenericParameter id = false)
    (hs : (t.get id).shape = .instanceOf definition own) :
    position ∈ t.positions id ↔ ∃ a ∈ own, position ∈ t.positions a := by
  simp [positions_eq hk, genericArguments_of_shape hs]

-- Types that are added do not change which parameters occur.
theorem GrowsTo.positions_eq (hg : t.GrowsTo t') (hc : t.contains id) :
    t'.positions id = t.positions id := by
  induction hn : id.index using Nat.strongRecOn generalizing id with
  | ind n ih =>
      subst hn
      cases hk : t.isGenericParameter id with
      | true =>
          obtain ⟨position, hp⟩ := exists_kind_of_isGenericParameter hk
          rw [positions_parameter hp, positions_parameter ((hg.kind_eq hc).trans hp)]
      | false =>
          have harguments : t'.genericArguments id = t.genericArguments id := by
            rw [genericArguments, genericArguments, hg.shape_eq hc]
          rw [TypeTable.positions_eq hk,
            TypeTable.positions_eq ((hg.isGenericParameter_eq hc).trans hk), harguments]
          refine congrArg List.flatten (List.map_congr_left fun a ha => ?_)
          have hlt := index_lt_of_mem_genericArguments ha
          exact ih a.index hlt (contains_iff.mpr (Nat.lt_trans hlt (contains_iff.mp hc))) rfl

-- What a type becomes is found if there is a replacement for each of its parameters.
theorem Replaced.replaced?_eq_some_of_lt (hw : t.WellFormed)
    (hp : ∀ position ∈ t.positions id, position < replacements.length)
    (h : t.Replaced replacements id type) : (t.tree id).replaced? t replacements = some type := by
  induction h with
  | @parameter id position hk =>
      have hlt : position < replacements.length := by
        refine hp position ?_
        rw [positions_parameter hk]
        exact List.mem_singleton_self position
      rw [replaced?_of_isGenericParameter hk, List.getElem?_eq_getElem hlt]
      rfl
  | @applied id result definition own results hk hs hr hl _ ih =>
      have hown (a : TypeId) (ha : a ∈ own) :
          ∀ position ∈ t.positions a, position < replacements.length :=
        fun position hm => hp position ((mem_positions_instanceOf hk hs).mpr ⟨a, ha, hm⟩)
      have hall := allReplaced?_eq_some_iff.mpr (List.forall₂_iff_zip.mpr
        ⟨hl, fun hm => ih _ _ hm (hown _ (List.of_mem_zip hm).1)⟩)
      rw [replaced?_of_instanceOf hk hs, hall, Option.bind_some]
      exact hw.findInstance?_eq_some.mpr ⟨contains_of_shape hr, hr⟩
  | closed _ hk hs => exact replaced?_of_ne_instanceOf hk hs

-- A parameter that occurs in a type over the parameters is one of those with a replacement.
theorem Replaces.lt_of_mem_positions (hw : t.WellFormed) (h : t.Replaces parameters replacements)
    (ho : t.isOver parameters id = true) :
    ∀ position ∈ t.positions id, position < replacements.length := by
  induction id using hw.type_induction with
  | parameter id hk =>
      obtain ⟨position, hp⟩ := exists_kind_of_isGenericParameter hk
      rw [positions_parameter hp]
      exact List.forall_mem_singleton.mpr (h.lt_length ho hp)
  | plain id hk hs => simp [positions_eq hk, genericArguments, hs, GenericShape.arguments]
  | definition id own hk hs =>
      rw [isOver_definition hk hs] at ho
      cases ho
  | applied id definition own hk hs ih =>
      rw [isOver_instanceOf hk hs] at ho
      intro position hm
      obtain ⟨a, ha, hposition⟩ := (mem_positions_instanceOf hk hs).mp hm
      exact ih a ha (ho a ha) position hposition

-- A type over the parameters is found with the replacements in their place.
theorem Replaced.replaced?_eq_some (hw : t.WellFormed) (hp : t.Replaces parameters replacements)
    (ho : t.isOver parameters id = true) (h : t.Replaced replacements id type) :
    (t.tree id).replaced? t replacements = some type :=
  h.replaced?_eq_some_of_lt hw (hp.lt_of_mem_positions hw ho)

-- What is found has the replacements in the place of the parameters.
theorem replaced_of_replaced? (hw : t.WellFormed) (hc : t.contains id)
    (h : (t.tree id).replaced? t replacements = some type) : t.Replaced replacements id type := by
  induction id using hw.type_induction generalizing type with
  | parameter id hk =>
      obtain ⟨position, hp⟩ := exists_kind_of_isGenericParameter hk
      rw [replaced?_of_isGenericParameter hp] at h
      have he : replacements[position]?.getD id = type := by rw [h, Option.getD_some]
      exact he ▸ .parameter hp
  | plain id hk hs =>
      rw [replaced?_of_closed hw (mentionsParameter_of_plain hk hs)] at h
      exact Option.some.inj h ▸ replaced_self hw hc (isOver_plain hk hs)
  | definition id own hk hs =>
      have hne : ∀ definition own, (t.get id).shape ≠ .instanceOf definition own := by
        intro definition own hi
        cases hs.symm.trans hi
      rw [replaced?_of_ne_instanceOf hk hne] at h
      exact Option.some.inj h ▸ .closed hc hk hne
  | applied id definition own hk hs ih =>
      rw [replaced?_of_instanceOf hk hs] at h
      obtain ⟨results, hall, hfind⟩ := Option.bind_eq_some_iff.mp h
      obtain ⟨hl, hzip⟩ := List.forall₂_iff_zip.mp (allReplaced?_eq_some_iff.mp hall)
      refine .applied hk hs (hw.findInstance?_eq_some.mp hfind).2 hl fun a b hm => ?_
      have ha := (List.of_mem_zip hm).1
      exact ih a ha (hw.contains_argument hs ha) (hzip hm)

end TypeTable

end EventScript
