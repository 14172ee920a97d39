import EventScript.Host.NamespaceTree
import Mathlib.Data.List.Induction
import Mathlib.Tactic.Common

namespace EventScript

namespace NamespaceTree

variable {tree tree' tree'' : NamespaceTree} {parent child id : NamespaceId} {name : String}
  {path : List String} {node : Namespace}

def contains (tree : NamespaceTree) (id : NamespaceId) : Bool := id.index < tree.nodes.size

@[simp] theorem contains_iff : tree.contains id = true ↔ id.index < tree.nodes.size :=
  decide_eq_true_iff

-- The names on the way from the root to a namespace. Parents come before what is in them, so the
-- way up ends.
def segments (tree : NamespaceTree) (id : NamespaceId) : List String :=
  match (tree.get id).parent with
  | some parent =>
      if parent.index < id.index then tree.segments parent ++ [(tree.get id).name] else []
  | none => []
termination_by id.index

-- The way from the root to a namespace is told by what is not younger than it.
theorem segments_eq_of_get_eq
    (h : ∀ other : NamespaceId, other.index ≤ id.index → tree'.get other = tree.get other) :
    tree'.segments id = tree.segments id := by
  fun_induction segments tree id
  case case1 id parent hp holder ih =>
    have hparent := ih fun other hle => h other (Nat.le_trans hle (Nat.le_of_lt holder))
    rw [segments, h id (Nat.le_refl _), hp]
    simp only [if_pos holder, hparent]
  case case2 id parent hp hyounger =>
    rw [segments, h id (Nat.le_refl _), hp]
    exact if_neg hyounger
  case case3 id hp =>
    rw [segments, h id (Nat.le_refl _), hp]

-- Where a path leads to from a namespace.
def descend? (tree : NamespaceTree) (start : NamespaceId) (path : List String) :
    Option NamespaceId := path.foldlM tree.child? start

theorem descend?_cons :
    tree.descend? parent (name :: path) = (tree.child? parent name).bind (tree.descend? · path) :=
  rfl

theorem descend?_concat : tree.descend? parent (path ++ [name]) =
    (tree.descend? parent path).bind (tree.child? · name) := by
  unfold descend?
  rw [List.foldlM_append]
  congr 1
  funext child
  simp

theorem find?_eq (tree : NamespaceTree) (home : String) :
    tree.find? home = tree.descend? .root (pathSegments home) := rfl

theorem of_child? (h : tree.child? parent name = some id) :
    tree.contains id ∧ (tree.get id).parent = some parent ∧ (tree.get id).name = name := by
  obtain ⟨i, hi, rfl⟩ := Option.map_eq_some_iff.mp h
  obtain ⟨hlt, hnode, -⟩ := Array.findIdx?_eq_some_iff_getElem.mp hi
  have hget : tree.get ⟨i⟩ = tree.nodes[i] := by simp [get, hlt]
  rw [hget]
  exact ⟨contains_iff.mpr hlt, by simpa using hnode⟩

theorem mem_children_iff :
    id ∈ tree.children parent ↔ tree.contains id ∧ (tree.get id).parent = some parent := by
  have hget : (∃ node, tree.nodes[id.index]? = some node ∧ node.parent = some parent) ↔
      id.index < tree.nodes.size ∧ (tree.get id).parent = some parent := by
    unfold get
    by_cases hlt : id.index < tree.nodes.size <;> simp [hlt]
  rw [contains_iff, ← hget]
  simp only [children, List.mem_map, List.mem_mergeSort, List.mem_filter,
    List.mem_zipIdx_iff_getElem?, Array.getElem?_toList, decide_eq_true_eq]
  constructor
  · rintro ⟨⟨node, i⟩, ⟨hnode, hp⟩, rfl⟩
    exact ⟨node, hnode, hp⟩
  · rintro ⟨node, hnode, hp⟩
    exact ⟨(node, id.index), ⟨hnode, hp⟩, rfl⟩

-- How a namespace hangs below another.
structure HangsUnder (tree : NamespaceTree) (parent id : NamespaceId) : Prop where
  parent_eq : (tree.get id).parent = some parent
  older : parent.index < id.index
  child?_eq : tree.child? parent (tree.get id).name = some id
  name_ne : (tree.get id).name ≠ ""

theorem HangsUnder.segments_eq (h : tree.HangsUnder parent id) :
    tree.segments id = tree.segments parent ++ [(tree.get id).name] := by
  rw [segments, h.parent_eq]
  exact if_pos h.older

-- The shape of a tree, however many paths it has been given: all but the root hang below something
-- older, each as the only one of its name.
structure Linked (tree : NamespaceTree) : Prop where
  root : tree.nodes[0]? = some ⟨"", "", none⟩
  hangs : ∀ id, tree.contains id → id ≠ .root → ∃ parent, tree.HangsUnder parent id
  fullName_eq : ∀ id, tree.contains id → (tree.get id).fullName = ".".intercalate (tree.segments id)

namespace Linked

theorem contains_root (h : tree.Linked) : tree.contains .root := by
  obtain ⟨hlt, -⟩ := Array.getElem?_eq_some_iff.mp h.root
  exact contains_iff.mpr hlt

theorem get_root (h : tree.Linked) : tree.get .root = ⟨"", "", none⟩ := by
  simp [get, NamespaceId.root, h.root]

theorem segments_root (h : tree.Linked) : tree.segments .root = [] := by
  rw [segments, h.get_root]

-- What holds of the root, and below each namespace that it holds of, holds everywhere.
theorem forall_contains {P : NamespaceId → Prop} (h : tree.Linked) (root : P .root)
    (hangs : ∀ parent id, tree.contains parent → tree.contains id → tree.HangsUnder parent id →
      P parent → P id)
    (id : NamespaceId) (hc : tree.contains id) : P id := by
  by_cases hr : id = .root
  · exact hr ▸ root
  · obtain ⟨parent, hp⟩ := h.hangs id hc hr
    have holder := hp.older
    have hcp : tree.contains parent := contains_iff.mpr (Nat.lt_trans holder (contains_iff.mp hc))
    exact hangs parent id hcp hc hp (h.forall_contains root hangs parent hcp)
termination_by id.index

theorem hangsUnder (h : tree.Linked) (hc : tree.contains id)
    (hp : (tree.get id).parent = some parent) : tree.HangsUnder parent id := by
  have hr : id ≠ .root := by
    rintro rfl
    rw [h.get_root] at hp
    cases hp
  obtain ⟨parent', hangs⟩ := h.hangs id hc hr
  obtain rfl := Option.some.inj (hp.symm.trans hangs.parent_eq)
  exact hangs

theorem child?_eq_some_iff (h : tree.Linked) : tree.child? parent name = some id ↔
    tree.contains id ∧ (tree.get id).parent = some parent ∧ (tree.get id).name = name := by
  refine ⟨of_child?, ?_⟩
  rintro ⟨hc, hp, rfl⟩
  exact (h.hangsUnder hc hp).child?_eq

theorem segments_of_child? (h : tree.Linked) (hc : tree.child? parent name = some id) :
    tree.segments id = tree.segments parent ++ [name] := by
  obtain ⟨hid, hp, rfl⟩ := of_child? hc
  exact (h.hangsUnder hid hp).segments_eq

-- A path leads to the namespace whose way from the root it is.
theorem descend?_eq_some_iff (h : tree.Linked) :
    tree.descend? .root path = some id ↔ tree.contains id ∧ tree.segments id = path := by
  constructor
  · induction path using List.reverseRecOn generalizing id with
    | nil =>
        intro hd
        obtain rfl : NamespaceId.root = id := Option.some.inj hd
        exact ⟨h.contains_root, h.segments_root⟩
    | append_singleton path name ih =>
        intro hd
        rw [descend?_concat] at hd
        obtain ⟨parent, hparent, hc⟩ := Option.bind_eq_some_iff.mp hd
        obtain ⟨-, rfl⟩ := ih hparent
        exact ⟨(of_child? hc).1, h.segments_of_child? hc⟩
  · rintro ⟨hc, rfl⟩
    refine h.forall_contains (P := fun id => tree.descend? .root (tree.segments id) = some id)
      ?_ ?_ id hc
    · rw [h.segments_root]
      rfl
    · intro parent id _ _ hangs ih
      rw [hangs.segments_eq, descend?_concat, ih]
      exact hangs.child?_eq

-- No two namespaces have the same path.
theorem eq_of_segments_eq (h : tree.Linked) {other : NamespaceId} (hc : tree.contains id)
    (hc' : tree.contains other) (hs : tree.segments id = tree.segments other) : id = other := by
  have hid := h.descend?_eq_some_iff.mpr ⟨hc, rfl⟩
  have hother := h.descend?_eq_some_iff.mpr ⟨hc', rfl⟩
  rw [hs, hother] at hid
  exact (Option.some.inj hid).symm

theorem ne_empty_of_mem_segments (h : tree.Linked) (hc : tree.contains id) :
    ∀ name ∈ tree.segments id, name ≠ "" := by
  refine h.forall_contains (P := fun id => ∀ name ∈ tree.segments id, name ≠ "") ?_ ?_ id hc
  · rw [h.segments_root]
    exact fun _ hm => absurd hm List.not_mem_nil
  · intro parent id _ _ hangs ih name hm
    rw [hangs.segments_eq] at hm
    rcases List.mem_append.mp hm with hm | hm
    · exact ih name hm
    · exact List.mem_singleton.mp hm ▸ hangs.name_ne

end Linked

-- Adding a namespace

def push (tree : NamespaceTree) (node : Namespace) : NamespaceTree :=
  { tree with nodes := tree.nodes.push node }

-- The namespace that is added next.
def next (tree : NamespaceTree) : NamespaceId := ⟨tree.nodes.size⟩

theorem contains_push : (tree.push node).contains id ↔ tree.contains id ∨ id = tree.next := by
  obtain ⟨i⟩ := id
  simp only [contains_iff, push, next, Array.size_push, NamespaceId.mk.injEq]
  omega

theorem get_push_next : (tree.push node).get tree.next = node := by
  simp [get, push, next]

theorem get_push_of_contains (hc : tree.contains id) :
    (tree.push node).get id = tree.get id := by
  have hlt := contains_iff.mp hc
  simp [get, push, Array.getElem?_push_lt hlt, hlt]

theorem child?_push : (tree.push node).child? parent name = (tree.child? parent name).or
    (if node.parent = some parent && node.name = name then some tree.next else none) := by
  unfold child? push
  rw [Array.findIdx?_push]
  cases tree.nodes.findIdx? fun node => node.parent = some parent && node.name = name with
  | some i => rfl
  | none => split <;> simp_all [next]

theorem child?_push_of_child? (hc : tree.child? parent name = some child) :
    (tree.push node).child? parent name = some child := by
  rw [child?_push, hc]
  rfl

-- A later state of a tree: every namespace has kept its place.
def KeptBy (tree tree' : NamespaceTree) : Prop :=
  ∀ id, tree.contains id → tree'.contains id ∧ tree'.segments id = tree.segments id

theorem KeptBy.refl (tree : NamespaceTree) : tree.KeptBy tree := fun _ hc => ⟨hc, rfl⟩

theorem KeptBy.trans (h : tree.KeptBy tree') (h' : tree'.KeptBy tree'') : tree.KeptBy tree'' := by
  intro id hc
  obtain ⟨hc', hs⟩ := h id hc
  obtain ⟨hc'', hs'⟩ := h' id hc'
  exact ⟨hc'', hs'.trans hs⟩

theorem segments_push (node : Namespace) (hc : tree.contains id) :
    (tree.push node).segments id = tree.segments id :=
  segments_eq_of_get_eq fun _ hle =>
    get_push_of_contains (contains_iff.mpr (Nat.lt_of_le_of_lt hle (contains_iff.mp hc)))

theorem keptBy_push (tree : NamespaceTree) (node : Namespace) : tree.KeptBy (tree.push node) :=
  fun _ hc => ⟨contains_push.mpr (.inl hc), segments_push node hc⟩

theorem HangsUnder.push (h : tree.HangsUnder parent id) (node : Namespace)
    (hc : tree.contains id) : (tree.push node).HangsUnder parent id := by
  have hget : (tree.push node).get id = tree.get id := get_push_of_contains hc
  constructor
  case parent_eq => rw [hget, h.parent_eq]
  case older => exact h.older
  case child?_eq =>
    rw [hget]
    exact child?_push_of_child? h.child?_eq
  case name_ne =>
    rw [hget]
    exact h.name_ne

theorem intercalate_concat (hne : ∀ segment ∈ path, segment ≠ "") :
    ".".intercalate (path ++ [name]) = if (".".intercalate path).isEmpty then name
      else ".".intercalate path ++ "." ++ name := by
  rcases path with - | ⟨first, rest⟩
  · rfl
  · have hfirst : first ≠ "" := hne first List.mem_cons_self
    have hfull : ".".intercalate (first :: rest) ≠ "" := by
      cases rest with
      | nil => simpa using hfirst
      | cons second rest => simp [String.intercalate_cons_cons, hfirst]
    rw [if_neg (by simpa using hfull), String.intercalate_append_of_ne_nil (by simp) (by simp),
      String.intercalate_singleton]

-- The namespace that `ensureChild` adds.
def childNode (tree : NamespaceTree) (parent : NamespaceId) (name : String) : Namespace where
  name := name
  fullName :=
    if (tree.get parent).fullName.isEmpty then name else (tree.get parent).fullName ++ "." ++ name
  parent := some parent

theorem hangsUnder_next (hp : tree.contains parent) (hn : name ≠ "")
    (hc : tree.child? parent name = none) :
    (tree.push (tree.childNode parent name)).HangsUnder parent tree.next := by
  constructor
  case parent_eq => rw [get_push_next, childNode]
  case older => exact contains_iff.mp hp
  case child?_eq => simp [get_push_next, child?_push, childNode, hc]
  case name_ne =>
    rw [get_push_next]
    exact hn

theorem Linked.push (h : tree.Linked) (hp : tree.contains parent) (hn : name ≠ "")
    (hc : tree.child? parent name = none) : (tree.push (tree.childNode parent name)).Linked := by
  have hnext := hangsUnder_next hp hn hc
  constructor
  case root =>
    have hlt : 0 < tree.nodes.size := contains_iff.mp h.contains_root
    rw [NamespaceTree.push, Array.getElem?_push_lt hlt, ← Array.getElem?_eq_getElem hlt]
    exact h.root
  case hangs =>
    intro id hid hr
    rcases contains_push.mp hid with hid | rfl
    · obtain ⟨parent', hangs⟩ := h.hangs id hid hr
      exact ⟨parent', hangs.push _ hid⟩
    · exact ⟨parent, hnext⟩
  case fullName_eq =>
    intro id hid
    rcases contains_push.mp hid with hid | rfl
    · rw [get_push_of_contains hid, segments_push _ hid]
      exact h.fullName_eq id hid
    · rw [hnext.segments_eq, get_push_next, segments_push _ hp, childNode, h.fullName_eq parent hp,
        intercalate_concat (h.ne_empty_of_mem_segments hp)]

-- Whether a tree has a namespace of that path.
def Holds (tree : NamespaceTree) (path : List String) : Prop :=
  ∃ id, tree.contains id ∧ tree.segments id = path

-- What an addition to a tree brings about: the namespace of a path, and of new ones those whose
-- paths are `added`.
structure Leads (tree : NamespaceTree) (path : List String) (added : List String → Prop)
    (result : NamespaceTree × NamespaceId) : Prop where
  linked : result.1.Linked
  placed_eq : result.1.placed = tree.placed
  keptBy : tree.KeptBy result.1
  contains : result.1.contains result.2
  segments_eq : result.1.segments result.2 = path
  holds_iff : ∀ path, result.1.Holds path ↔ tree.Holds path ∨ added path

theorem Linked.ensureChild (h : tree.Linked) (hp : tree.contains parent) (hn : name ≠ "") :
    tree.Leads (tree.segments parent ++ [name]) (· = tree.segments parent ++ [name])
      (tree.ensureChild parent name) := by
  unfold NamespaceTree.ensureChild
  split
  · rename_i child hc
    have hchild := (of_child? hc).1
    have hs := h.segments_of_child? hc
    refine ⟨h, rfl, .refl tree, hchild, hs, fun path => ?_⟩
    refine ⟨.inl, fun hor => hor.elim id ?_⟩
    rintro rfl
    exact ⟨child, hchild, hs⟩
  · rename_i hc
    change tree.Leads _ _ (tree.push (tree.childNode parent name), tree.next)
    have hkept := keptBy_push tree (tree.childNode parent name)
    have hs : (tree.push (tree.childNode parent name)).segments tree.next =
        tree.segments parent ++ [name] := by
      rw [(hangsUnder_next hp hn hc).segments_eq, get_push_next, segments_push _ hp, childNode]
    refine ⟨h.push hp hn hc, rfl, hkept, contains_push.mpr (.inr rfl), hs, fun path => ?_⟩
    constructor
    · rintro ⟨id, hid, rfl⟩
      rcases contains_push.mp hid with hid | rfl
      · exact .inl ⟨id, hid, (segments_push _ hid).symm⟩
      · exact .inr hs
    · rintro (⟨id, hid, rfl⟩ | rfl)
      · exact ⟨id, hkept id hid⟩
      · exact ⟨tree.next, contains_push.mpr (.inr rfl), hs⟩

-- Adding a path adds all that leads to it and nothing else. The induction takes the path from its
-- end, as the last name is the last to be added.
theorem Linked.ensure (h : tree.Linked) (hne : ∀ name ∈ path, name ≠ "") :
    tree.Leads path (· <+: path) (tree.ensure path) := by
  induction path using List.reverseRecOn with
  | nil =>
      refine ⟨h, rfl, .refl tree, h.contains_root, h.segments_root, fun path => ?_⟩
      refine ⟨.inl, fun hor => hor.elim id fun hnil => ?_⟩
      obtain rfl := List.prefix_nil.mp hnil
      exact ⟨.root, h.contains_root, h.segments_root⟩
  | append_singleton path name ih =>
      obtain ⟨hfront, hlast⟩ := List.forall_mem_append.mp hne
      have hstart := ih hfront
      have hname := hlast name (List.mem_singleton_self name)
      have hstep := hstart.linked.ensureChild hstart.contains hname
      rw [hstart.segments_eq] at hstep
      rw [NamespaceTree.ensure, List.foldl_append]
      refine ⟨hstep.linked, hstep.placed_eq.trans hstart.placed_eq,
        hstart.keptBy.trans hstep.keptBy, hstep.contains, hstep.segments_eq, fun other => ?_⟩
      rw [List.prefix_concat_iff]
      exact (hstep.holds_iff other).trans (by rw [hstart.holds_iff other]; tauto)

end NamespaceTree

end EventScript
