import EventScript.Proofs.Host.NamedTypes
import EventScript.Proofs.Host.PlacedTypes

namespace EventScript

namespace NamespaceTree

-- What a name stands for in a namespace

variable {tree : NamespaceTree} {parent child : NamespaceId} {name : String} {arity : Nat}
  {id : TypeId}

theorem lookup?_of_child? (h : tree.child? parent name = some child) :
    tree.lookup? parent name arity = some (.namespace child) := by
  rw [lookup?, h]

theorem lookup?_of_type? (hc : tree.child? parent name = none)
    (ht : tree.type? parent name arity = some id) :
    tree.lookup? parent name arity = some (.type id) := by
  rw [lookup?, hc, ht]
  rfl

theorem lookupIn?_namespace : tree.lookupIn? (.namespace parent) name arity =
    tree.lookup? parent name arity := by
  simp [lookupIn?, Entity.namespaces]

end NamespaceTree

-- Whether scripts can name a type by its namespace.
def TypeDef.isOffered (d : TypeDef) : Bool := d.isPublic && d.isNamed && d.home.isSome

theorem TypeDef.spot?_of_offered {d : TypeDef} {home : String} (h : d.isOffered)
    (hh : d.home = some home) : d.spot? = some (pathSegments home, d.name, d.arity) := by
  rw [isOffered, hh] at h
  rw [spot?, hh]
  exact if_pos (by simpa using h)

namespace TypeTable

variable {t : TypeTable} {id other : TypeId}

-- Namespaces of types that are written differently are different ones.
def KeepsHomesApart (t : TypeTable) : Prop :=
  ∀ id other home home', (t.get id).home = some home → (t.get other).home = some home' →
    pathSegments home = pathSegments home' → home = home'

-- No two types share a spot.
theorem eq_of_spot? (ht : t.Consistent) (ha : t.KeepsHomesApart)
    {spot : List String × String × Nat} (h : (t.get id).spot? = some spot)
    (h' : (t.get other).spot? = some spot) : id = other := by
  obtain ⟨path, name, arity⟩ := spot
  obtain ⟨-, hn, home, hh, rfl, rfl, rfl⟩ := TypeDef.spot?_eq_some_iff.mp h
  obtain ⟨-, hn', home', hh', hpath, hname, harity⟩ := TypeDef.spot?_eq_some_iff.mp h'
  obtain rfl := ha _ _ _ _ hh hh' hpath.symm
  refine ht.named_unique _ _ (contains_of_home hh) hn (contains_of_home hh') hn' ?_
  simp only [TypeDef.lookupName, hh, hh', hname, harity]

end TypeTable

-- Every type that is offered is found where it is declared.
theorem NamespaceTree.exists_find?_type? {t : TypeTable} {id : TypeId} {home : String}
    (ht : t.Consistent) (ha : t.KeepsHomesApart) (ho : (t.get id).isOffered)
    (hh : (t.get id).home = some home) :
    ∃ node, (ofTable t).find? home = some node ∧
      (ofTable t).type? node (t.get id).name (t.get id).arity = some id := by
  have harranges := arranges_ofTable t
  have hspot := TypeDef.spot?_of_offered ho hh
  obtain ⟨node, hnode⟩ := (harranges.holds_iff (pathSegments home)).mpr
    (.inr (TypeTable.offers_size_iff.mpr ⟨id, _, _, _, hspot, List.prefix_rfl⟩))
  refine ⟨node, harranges.linked.descend?_eq_some_iff.mpr hnode, ?_⟩
  rw [harranges.type?_eq_some_iff, hnode.2, TypeTable.isLastAt_size_iff]
  refine ⟨hnode.1, hspot, fun other hother => ?_⟩
  exact Nat.le_of_eq (congrArg TypeId.index (TypeTable.eq_of_spot? ht ha hother hspot))

end EventScript
