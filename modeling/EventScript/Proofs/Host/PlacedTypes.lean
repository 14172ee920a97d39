import EventScript.Proofs.Host.NamespaceNodes
import EventScript.Proofs.Host.SameTypes
import Mathlib.Data.List.Nodup

namespace EventScript

-- Where scripts find a type, if they can: the way to its namespace, its name and its arity.
def TypeDef.spot? (d : TypeDef) : Option (List String × String × Nat) :=
  if d.isPublic && d.isNamed then
    d.home.map fun home => (pathSegments home, d.name, d.arity)
  else none

theorem TypeDef.spot?_eq_some_iff {d : TypeDef} {path : List String} {name : String} {arity : Nat} :
    d.spot? = some (path, name, arity) ↔ d.isPublic ∧ d.isNamed ∧
      ∃ home, d.home = some home ∧ pathSegments home = path ∧ d.name = name ∧ d.arity = arity := by
  rw [spot?, Option.ite_none_right_eq_some, Bool.and_eq_true, Option.map_eq_some_iff, and_assoc]
  simp only [Prod.mk.injEq]

namespace TypeTable

variable {t : TypeTable} {n : Nat} {id : TypeId} {spot : List String × String × Nat}
  {path : List String}

theorem lt_size_of_spot? (h : (t.get id).spot? = some spot) : id.index < t.size := by
  by_contra hc
  rw [get_of_not_contains hc] at h
  cases h

-- Whether one of the first types stands at that path or below it.
def Offers (t : TypeTable) (n : Nat) (path : List String) : Prop :=
  ∃ id whole name arity, id.index < n ∧ (t.get id).spot? = some (whole, name, arity) ∧
    path <+: whole

theorem offers_size_iff : t.Offers t.size path ↔
    ∃ id whole name arity, (t.get id).spot? = some (whole, name, arity) ∧ path <+: whole := by
  constructor
  · rintro ⟨id, whole, name, arity, -, hspot, hp⟩
    exact ⟨id, whole, name, arity, hspot, hp⟩
  · rintro ⟨id, whole, name, arity, hspot, hp⟩
    exact ⟨id, whole, name, arity, lt_size_of_spot? hspot, hspot, hp⟩

theorem offers_succ : t.Offers (n + 1) path ↔ t.Offers n path ∨
    ∃ whole name arity, (t.get ⟨n⟩).spot? = some (whole, name, arity) ∧ path <+: whole := by
  constructor
  · rintro ⟨id, whole, name, arity, hlt, hspot, hp⟩
    rcases Nat.lt_succ_iff_lt_or_eq.mp hlt with hlt | he
    · exact .inl ⟨id, whole, name, arity, hlt, hspot, hp⟩
    · obtain rfl : id = ⟨n⟩ := congrArg TypeId.mk he
      exact .inr ⟨whole, name, arity, hspot, hp⟩
  · rintro (⟨id, whole, name, arity, hlt, hspot, hp⟩ | ⟨whole, name, arity, hspot, hp⟩)
    · exact ⟨id, whole, name, arity, Nat.lt_succ_of_lt hlt, hspot, hp⟩
    · exact ⟨⟨n⟩, whole, name, arity, Nat.lt_succ_self n, hspot, hp⟩

-- Of the first types at a spot, the last one.
structure IsLastAt (t : TypeTable) (n : Nat) (spot : List String × String × Nat) (id : TypeId) :
    Prop where
  lt : id.index < n
  spot?_eq : (t.get id).spot? = some spot
  last : ∀ other, other.index < n → (t.get other).spot? = some spot → other.index ≤ id.index

theorem IsLastAt.eq {other : TypeId} (h : t.IsLastAt n spot id) (h' : t.IsLastAt n spot other) :
    id = other :=
  congrArg TypeId.mk (Nat.le_antisymm (h'.last id h.lt h.spot?_eq) (h.last other h'.lt h'.spot?_eq))

theorem isLastAt_size_iff : t.IsLastAt t.size spot id ↔ (t.get id).spot? = some spot ∧
    ∀ other, (t.get other).spot? = some spot → other.index ≤ id.index := by
  constructor
  · intro h
    exact ⟨h.spot?_eq, fun other ho => h.last other (lt_size_of_spot? ho) ho⟩
  · rintro ⟨hs, hl⟩
    exact ⟨lt_size_of_spot? hs, hs, fun other _ ho => hl other ho⟩

theorem isLastAt_succ_of_eq (h : (t.get ⟨n⟩).spot? = some spot) :
    t.IsLastAt (n + 1) spot id ↔ id = ⟨n⟩ := by
  constructor
  · intro hlast
    have hle : n ≤ id.index := hlast.last ⟨n⟩ (Nat.lt_succ_self n) h
    exact congrArg TypeId.mk (Nat.le_antisymm (Nat.le_of_lt_succ hlast.lt) hle)
  · rintro rfl
    exact ⟨Nat.lt_succ_self n, h, fun other hlt _ => Nat.le_of_lt_succ hlt⟩

theorem isLastAt_succ_of_ne (h : (t.get ⟨n⟩).spot? ≠ some spot) :
    t.IsLastAt (n + 1) spot id ↔ t.IsLastAt n spot id := by
  have hlt {other : TypeId} (ho : (t.get other).spot? = some spot) :
      other.index < n + 1 ↔ other.index < n := by
    have hne : other.index ≠ n := by
      rintro rfl
      exact h ho
    omega
  constructor
  · rintro ⟨hid, hspot, hlast⟩
    exact ⟨(hlt hspot).mp hid, hspot, fun other ho hs => hlast other ((hlt hs).mpr ho) hs⟩
  · rintro ⟨hid, hspot, hlast⟩
    exact ⟨(hlt hspot).mpr hid, hspot, fun other ho hs => hlast other ((hlt hs).mp ho) hs⟩

end TypeTable

namespace NamespaceTree

variable {t : TypeTable} {tree : NamespaceTree} {n : Nat} {id : TypeId} {d : TypeDef}
  {home : NamespaceId} {path : List String} {name : String} {arity : Nat}

theorem addType_of_spot?_none (h : d.spot? = none) : tree.addType id d = tree := by
  unfold addType
  split
  · rename_i home hh
    rw [TypeDef.spot?, hh] at h
    rw [if_neg (by simpa using h)]
  · rfl

theorem addType_of_spot? (h : d.spot? = some (path, name, arity)) :
    tree.addType id d = (tree.ensure path).1.place ⟨(tree.ensure path).2, name, arity, id⟩ := by
  obtain ⟨hp, hn, home, hh, rfl, rfl, rfl⟩ := TypeDef.spot?_eq_some_iff.mp h
  unfold addType
  rw [hh, hp, hn]
  rfl

theorem ne_empty_of_spot? (h : d.spot? = some (path, name, arity)) :
    ∀ segment ∈ path, segment ≠ "" := by
  obtain ⟨-, -, home, -, rfl, -⟩ := TypeDef.spot?_eq_some_iff.mp h
  intro segment hm
  simpa using (List.mem_filter.mp hm).2

-- Placing a type

section

variable {new p : PlacedType}

theorem mem_placed_place :
    p ∈ (tree.place new).placed ↔
      p = new ∨ p ∈ tree.placed ∧
        ¬(p.home = new.home ∧ p.name = new.name ∧ p.arity = new.arity) := by
  simp only [place, List.mem_append, List.mem_filter, List.mem_singleton, Bool.not_eq_true',
    Bool.and_eq_false_iff, decide_eq_false_iff_not]
  tauto

theorem nodup_place (h : tree.placed.Nodup) : (tree.place new).placed.Nodup := by
  refine List.nodup_append.mpr ⟨h.filter _, List.nodup_singleton new, fun old hm other hm' => ?_⟩
  obtain rfl := List.mem_singleton.mp hm'
  rintro rfl
  simpa using (List.mem_filter.mp hm).2

theorem segments_place (new : PlacedType) (home : NamespaceId) :
    (tree.place new).segments home = tree.segments home :=
  segments_eq_of_get_eq fun _ _ => rfl

theorem Linked.place (h : tree.Linked) (new : PlacedType) : (tree.place new).Linked := by
  refine ⟨h.root, fun home hc hr => ?_, fun home hc => ?_⟩
  · obtain ⟨parent, hangs⟩ := h.hangs home hc hr
    exact ⟨parent, hangs.parent_eq, hangs.older, hangs.child?_eq, hangs.name_ne⟩
  · rw [segments_place]
    exact h.fullName_eq home hc

theorem holds_place : (tree.place new).Holds path ↔ tree.Holds path := by
  simp only [Holds, segments_place]
  rfl

end

-- The spot that a placed type has in its tree.
def spot (tree : NamespaceTree) (p : PlacedType) : List String × String × Nat :=
  (tree.segments p.home, p.name, p.arity)

-- The tree of the first types of a table: it has the namespaces that lead to them, and at each
-- spot the last of them.
structure Arranges (t : TypeTable) (n : Nat) (tree : NamespaceTree) : Prop where
  linked : tree.Linked
  holds_iff : ∀ path, tree.Holds path ↔ path = [] ∨ t.Offers n path
  mem_placed_iff : ∀ p, p ∈ tree.placed ↔
    tree.contains p.home ∧ t.IsLastAt n (tree.spot p) p.type
  nodup : tree.placed.Nodup

theorem arranges_rootOnly (t : TypeTable) : rootOnly.Arranges t 0 := by
  have hroot {id : NamespaceId} (hc : rootOnly.contains id) : id = .root :=
    congrArg NamespaceId.mk (Nat.lt_one_iff.mp (contains_iff.mp hc))
  have hs : rootOnly.segments .root = [] := by
    rw [segments]
    rfl
  constructor
  case linked =>
    refine ⟨rfl, fun id hc hr => absurd (hroot hc) hr, fun id hc => ?_⟩
    rw [hroot hc, hs]
    rfl
  case holds_iff =>
    intro path
    constructor
    · rintro ⟨id, hc, rfl⟩
      exact .inl (hroot hc ▸ hs)
    · rintro (rfl | ⟨_, _, _, _, hlt, -⟩)
      · exact ⟨.root, rfl, hs⟩
      · exact absurd hlt (Nat.not_lt_zero _)
  case mem_placed_iff =>
    intro p
    constructor
    · intro hm
      exact absurd hm List.not_mem_nil
    · rintro ⟨-, hl⟩
      exact absurd hl.lt (Nat.not_lt_zero _)
  case nodup => exact List.nodup_nil

theorem Arranges.succ_of_spot?_none (h : tree.Arranges t n) (hs : (t.get ⟨n⟩).spot? = none) :
    tree.Arranges t (n + 1) := by
  constructor
  case linked => exact h.linked
  case holds_iff =>
    intro path
    rw [h.holds_iff, TypeTable.offers_succ, hs]
    simp
  case mem_placed_iff =>
    intro p
    rw [h.mem_placed_iff, TypeTable.isLastAt_succ_of_ne (by simp [hs])]
  case nodup => exact h.nodup

-- What is placed stays arranged while namespaces are added: the spots of all types seen so far
-- already have theirs.
theorem Arranges.mem_placed_iff_of_leads {added : List String → Prop}
    {result : NamespaceTree × NamespaceId} (h : tree.Arranges t n)
    (hl : tree.Leads path added result) (p : PlacedType) :
    p ∈ result.1.placed ↔
      result.1.contains p.home ∧ t.IsLastAt n (result.1.spot p) p.type := by
  have hspot (hc : tree.contains p.home) : result.1.spot p = tree.spot p := by
    rw [spot, spot, (hl.keptBy p.home hc).2]
  rw [hl.placed_eq, h.mem_placed_iff]
  constructor
  · rintro ⟨hc, hlast⟩
    exact ⟨(hl.keptBy p.home hc).1, hspot hc ▸ hlast⟩
  · rintro ⟨hc, hlast⟩
    obtain ⟨home, hhome, hs⟩ := (h.holds_iff (result.1.segments p.home)).mpr
      (.inr ⟨p.type, _, _, _, hlast.lt, hlast.spot?_eq, List.prefix_rfl⟩)
    obtain ⟨hhome', hs'⟩ := hl.keptBy home hhome
    obtain rfl := hl.linked.eq_of_segments_eq hhome' hc (hs'.trans hs)
    exact ⟨hhome, hspot hhome ▸ hlast⟩

theorem Arranges.succ_of_spot? (h : tree.Arranges t n)
    (hs : (t.get ⟨n⟩).spot? = some (path, name, arity)) :
    (tree.addType ⟨n⟩ (t.get ⟨n⟩)).Arranges t (n + 1) := by
  have hl := h.linked.ensure (ne_empty_of_spot? hs)
  have hold := h.mem_placed_iff_of_leads hl
  have hnodup : (tree.ensure path).1.placed.Nodup := hl.placed_eq ▸ h.nodup
  rw [addType_of_spot? hs]
  generalize tree.ensure path = result at hl hold hnodup
  obtain ⟨grown, home⟩ := result
  have hspot (p : PlacedType) (hc : grown.contains p.home) :
      p.home = home ∧ p.name = name ∧ p.arity = arity ↔ grown.spot p = (path, name, arity) := by
    have hhome : p.home = home ↔ grown.segments p.home = path := by
      rw [← hl.segments_eq]
      exact ⟨fun he => he ▸ rfl, hl.linked.eq_of_segments_eq hc hl.contains⟩
    rw [hhome, spot, Prod.mk.injEq, Prod.mk.injEq]
  constructor
  case linked => exact hl.linked.place _
  case holds_iff =>
    intro other
    rw [holds_place, hl.holds_iff, h.holds_iff, TypeTable.offers_succ, hs, or_assoc]
    simp
  case mem_placed_iff =>
    intro p
    rw [mem_placed_place, spot, segments_place]
    change _ ↔ grown.contains p.home ∧ t.IsLastAt (n + 1) (grown.spot p) p.type
    by_cases he : grown.spot p = (path, name, arity)
    · rw [he, TypeTable.isLastAt_succ_of_eq hs]
      constructor
      · rintro (rfl | ⟨hm, hne⟩)
        · exact ⟨hl.contains, rfl⟩
        · exact absurd ((hspot p ((hold p).mp hm).1).mpr he) hne
      · rintro ⟨hc, htype⟩
        obtain ⟨hhome, hname, harity⟩ := (hspot p hc).mpr he
        exact .inl (by rw [← hhome, ← hname, ← harity, ← htype])
    · have hne : (t.get ⟨n⟩).spot? ≠ some (grown.spot p) := by
        rw [hs]
        exact fun heq => he (Option.some.inj heq).symm
      rw [TypeTable.isLastAt_succ_of_ne hne, ← hold p]
      constructor
      · rintro (rfl | ⟨hm, -⟩)
        · exact absurd ((hspot _ hl.contains).mp ⟨rfl, rfl, rfl⟩) he
        · exact hm
      · intro hm
        exact .inr ⟨hm, fun hsame => he ((hspot p ((hold p).mp hm).1).mp hsame)⟩
  case nodup => exact nodup_place hnodup

theorem Arranges.addType (h : tree.Arranges t n) :
    (tree.addType ⟨n⟩ (t.get ⟨n⟩)).Arranges t (n + 1) := by
  cases hs : (t.get ⟨n⟩).spot? with
  | none =>
      rw [addType_of_spot?_none hs]
      exact h.succ_of_spot?_none hs
  | some spot => exact h.succ_of_spot? hs

theorem arranges_ofTable (t : TypeTable) : (ofTable t).Arranges t t.size := by
  rw [ofTable, TypeTable.entries_eq, List.foldl_map]
  induction t.size with
  | zero => exact arranges_rootOnly t
  | succ n ih =>
      rw [List.range_succ, List.foldl_concat]
      exact ih.addType

section

variable {p other : PlacedType} (h : tree.Arranges t n)
include h

-- No two types stand at the same place.
theorem Arranges.eq_of_mem_placed (hm : p ∈ tree.placed) (hm' : other ∈ tree.placed)
    (hhome : p.home = other.home) (hname : p.name = other.name) (harity : p.arity = other.arity) :
    p = other := by
  have hlast := ((h.mem_placed_iff p).mp hm).2
  have hlast' := ((h.mem_placed_iff other).mp hm').2
  rw [spot, hhome, hname, harity] at hlast
  have htype := hlast.eq hlast'
  cases p
  cases other
  simp_all

theorem Arranges.type?_eq_some_iff : tree.type? home name arity = some id ↔
    tree.contains home ∧ t.IsLastAt n (tree.segments home, name, arity) id := by
  unfold type?
  rw [Option.map_eq_some_iff]
  constructor
  · rintro ⟨p, hfind, rfl⟩
    have hp := List.find?_some hfind
    simp only [Bool.and_eq_true, decide_eq_true_eq] at hp
    obtain ⟨⟨rfl, rfl⟩, rfl⟩ := hp
    exact (h.mem_placed_iff p).mp (List.mem_of_find?_eq_some hfind)
  · intro hlast
    have hm := (h.mem_placed_iff ⟨home, name, arity, id⟩).mpr hlast
    cases hfind : tree.placed.find? fun p => p.home = home && p.name = name && p.arity = arity with
    | none => exact absurd (List.find?_eq_none.mp hfind _ hm) (by simp)
    | some p =>
        have hp := List.find?_some hfind
        simp only [Bool.and_eq_true, decide_eq_true_eq] at hp
        obtain ⟨⟨hhome, hname⟩, harity⟩ := hp
        refine ⟨p, rfl, ?_⟩
        rw [h.eq_of_mem_placed (List.mem_of_find?_eq_some hfind) hm hhome hname harity]

theorem Arranges.mem_typeGroup_iff : p ∈ tree.typeGroup home name ↔
    p.home = home ∧ p.name = name ∧ tree.type? home name p.arity = some p.type := by
  simp only [typeGroup, List.mem_mergeSort, List.mem_filter, Bool.and_eq_true, decide_eq_true_eq]
  rw [h.mem_placed_iff, h.type?_eq_some_iff]
  constructor
  · rintro ⟨hlast, rfl, rfl⟩
    exact ⟨rfl, rfl, hlast⟩
  · rintro ⟨rfl, rfl, hlast⟩
    exact ⟨hlast, rfl, rfl⟩

theorem Arranges.pairwise_typeGroup (home : NamespaceId) (name : String) :
    (tree.typeGroup home name).Pairwise (·.arity < ·.arity) := by
  have hsorted : (tree.typeGroup home name).Pairwise (·.arity ≤ ·.arity) := by
    refine (List.pairwise_mergeSort ?_ ?_ _).imp fun hle => of_decide_eq_true hle
    · intro a b c hab hbc
      exact decide_eq_true (Nat.le_trans (of_decide_eq_true hab) (of_decide_eq_true hbc))
    · intro a b
      simpa using Nat.le_total a.arity b.arity
  have hnodup : (tree.typeGroup home name).Nodup :=
    (List.mergeSort_perm _ _).nodup_iff.mpr (h.nodup.filter _)
  refine (hsorted.and hnodup).imp_of_mem fun {p other} hm hm' hpair => ?_
  refine Nat.lt_of_le_of_ne hpair.1 fun harity => hpair.2 ?_
  simp only [typeGroup, List.mem_mergeSort, List.mem_filter, Bool.and_eq_true,
    decide_eq_true_eq] at hm hm'
  exact h.eq_of_mem_placed hm.1 hm'.1 (hm.2.1.trans hm'.2.1.symm) (hm.2.2.trans hm'.2.2.symm)
    harity

end

-- A tree that shows of a table what scripts can name, and nothing else.
structure IsTreeOf (t : TypeTable) (tree : NamespaceTree) : Prop where
  contains_root : tree.contains .root
  get_root : tree.get .root = ⟨"", "", none⟩
  -- Each beginning of a path to a type has a namespace, and only one; the root has the empty path.
  holds_iff : ∀ path, (∃ id, tree.contains id ∧ tree.segments id = path) ↔ path = [] ∨
    ∃ type whole name arity, (t.get type).spot? = some (whole, name, arity) ∧ path <+: whole
  eq_of_segments_eq : ∀ id other, tree.contains id → tree.contains other →
    tree.segments id = tree.segments other → id = other
  -- Parents come before what is in them and have it under its name.
  hangs : ∀ id, tree.contains id → id ≠ .root →
    ∃ parent, tree.contains parent ∧ tree.HangsUnder parent id
  child?_eq_some_iff : ∀ parent name id, tree.child? parent name = some id ↔
    tree.contains id ∧ (tree.get id).parent = some parent ∧ (tree.get id).name = name
  mem_children_iff : ∀ parent id, id ∈ tree.children parent ↔
    tree.contains id ∧ (tree.get id).parent = some parent
  fullName_eq : ∀ id, tree.contains id → (tree.get id).fullName = ".".intercalate (tree.segments id)
  find?_eq_some_iff : ∀ path id, tree.find? path = some id ↔
    tree.contains id ∧ tree.segments id = pathSegments path
  -- Of the types at one spot it is the last one that is found.
  type?_eq_some_iff : ∀ home name arity type, tree.type? home name arity = some type ↔
    tree.contains home ∧ (t.get type).spot? = some (tree.segments home, name, arity) ∧
      ∀ other, (t.get other).spot? = some (tree.segments home, name, arity) →
        other.index ≤ type.index
  mem_typeGroup_iff : ∀ home name p, p ∈ tree.typeGroup home name ↔
    p.home = home ∧ p.name = name ∧ tree.type? home name p.arity = some p.type
  pairwise_typeGroup : ∀ home name, (tree.typeGroup home name).Pairwise (·.arity < ·.arity)

theorem isTreeOf_ofTable (t : TypeTable) : (ofTable t).IsTreeOf t := by
  have h := arranges_ofTable t
  constructor
  case contains_root => exact h.linked.contains_root
  case get_root => exact h.linked.get_root
  case holds_iff =>
    intro path
    rw [← TypeTable.offers_size_iff]
    exact h.holds_iff path
  case eq_of_segments_eq => exact fun id other hc hc' hs => h.linked.eq_of_segments_eq hc hc' hs
  case hangs =>
    intro id hc hr
    obtain ⟨parent, hangs⟩ := h.linked.hangs id hc hr
    have hlt := Nat.lt_trans hangs.older (contains_iff.mp hc)
    exact ⟨parent, contains_iff.mpr hlt, hangs⟩
  case child?_eq_some_iff => exact fun parent name id => h.linked.child?_eq_some_iff
  case mem_children_iff => exact fun parent id => NamespaceTree.mem_children_iff
  case fullName_eq => exact h.linked.fullName_eq
  case find?_eq_some_iff =>
    intro path id
    rw [find?_eq, h.linked.descend?_eq_some_iff]
  case type?_eq_some_iff =>
    intro home name arity type
    rw [h.type?_eq_some_iff, TypeTable.isLastAt_size_iff]
  case mem_typeGroup_iff => exact fun home name p => h.mem_typeGroup_iff
  case pairwise_typeGroup => exact h.pairwise_typeGroup

end NamespaceTree

end EventScript
