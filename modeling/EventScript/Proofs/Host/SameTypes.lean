import EventScript.Host.Extensions
import EventScript.Host.NamespaceTree

namespace EventScript

-- What a description tells of a type besides its methods.
def TypeDef.withoutMethods (d : TypeDef) : TypeDef := { d with methods := [] }

namespace TypeTable

-- Two tables that have the same types, whatever methods these have.
structure SameTypes (t t' : TypeTable) : Prop where
  size_eq : t'.size = t.size
  get_eq : ∀ id, (t'.get id).withoutMethods = (t.get id).withoutMethods
  instances_eq : t'.instances = t.instances
  names_eq : t'.names = t.names

namespace SameTypes

variable {t t' : TypeTable}

theorem refl (t : TypeTable) : t.SameTypes t := ⟨rfl, fun _ => rfl, rfl, rfl⟩

section

variable (h : t.SameTypes t')
include h

-- What a description tells of a type

theorem get_congr {α : Type} (f : TypeDef → α) (hf : ∀ d, f d = f d.withoutMethods)
    (id : TypeId) : f (t'.get id) = f (t.get id) := by
  rw [hf, h.get_eq, ← hf]

theorem shape_eq (id : TypeId) : (t'.get id).shape = (t.get id).shape :=
  h.get_congr (·.shape) (fun _ => rfl) id

theorem base?_eq (id : TypeId) : t'.base? id = t.base? id :=
  h.get_congr (·.base) (fun _ => rfl) id

theorem interfaces_eq (id : TypeId) : (t'.get id).interfaces = (t.get id).interfaces :=
  h.get_congr (·.interfaces) (fun _ => rfl) id

theorem properties_eq (id : TypeId) : (t'.get id).properties = (t.get id).properties :=
  h.get_congr (·.properties) (fun _ => rfl) id

theorem home_eq (id : TypeId) : (t'.get id).home = (t.get id).home :=
  h.get_congr (·.home) (fun _ => rfl) id

theorem name_eq (id : TypeId) : (t'.get id).name = (t.get id).name :=
  h.get_congr (·.name) (fun _ => rfl) id

theorem fullName_eq (id : TypeId) : (t'.get id).fullName = (t.get id).fullName :=
  h.get_congr (·.fullName) (fun _ => rfl) id

theorem kind_eq (id : TypeId) : t'.kind id = t.kind id :=
  h.get_congr (·.kind) (fun _ => rfl) id

theorem contains_eq (id : TypeId) : t'.contains id = t.contains id := by
  rw [contains, contains, h.size_eq]

theorem numericKind?_eq (id : TypeId) : t'.numericKind? id = t.numericKind? id := by
  rw [numericKind?, numericKind?, h.kind_eq]

theorem isValueType_eq (id : TypeId) : t'.isValueType id = t.isValueType id := by
  rw [isValueType, isValueType, h.kind_eq]

theorem isReferenceType_eq (id : TypeId) : t'.isReferenceType id = t.isReferenceType id := by
  rw [isReferenceType, isReferenceType, h.kind_eq]

theorem isInterface_eq (id : TypeId) : t'.isInterface id = t.isInterface id := by
  rw [isInterface, isInterface, h.kind_eq]

theorem isGenericParameter_eq (id : TypeId) :
    t'.isGenericParameter id = t.isGenericParameter id := by
  rw [isGenericParameter, isGenericParameter, h.kind_eq]

theorem genericArguments_eq (id : TypeId) : t'.genericArguments id = t.genericArguments id := by
  rw [genericArguments, genericArguments, h.shape_eq]

theorem openDefinition_eq (id : TypeId) : t'.openDefinition id = t.openDefinition id := by
  rw [openDefinition, openDefinition, h.shape_eq]

theorem isInstanceOf_eq (id definition : TypeId) :
    t'.isInstanceOf id definition = t.isInstanceOf id definition := by
  rw [isInstanceOf, isInstanceOf, h.shape_eq]

theorem nullableUnderlying?_eq (id : TypeId) :
    t'.nullableUnderlying? id = t.nullableUnderlying? id := by
  rw [nullableUnderlying?, nullableUnderlying?, h.isInstanceOf_eq, h.genericArguments_eq]

theorem extensibleUnderlying?_eq (id : TypeId) :
    t'.extensibleUnderlying? id = t.extensibleUnderlying? id := by
  rw [extensibleUnderlying?, extensibleUnderlying?, h.isInstanceOf_eq, h.genericArguments_eq]

theorem find?_eq (home name : String) (arity : Nat) :
    t'.find? home name arity = t.find? home name arity := by
  rw [find?, find?, h.names_eq]

theorem findInstance?_eq (definition : TypeId) (arguments : List TypeId) :
    t'.findInstance? definition arguments = t.findInstance? definition arguments := by
  rw [findInstance?, findInstance?, h.instances_eq]

-- Bases and interfaces

theorem baseChainWithin_eq (length : Nat) (id : TypeId) :
    t'.baseChainWithin length id = t.baseChainWithin length id := by
  induction length generalizing id with
  | zero => rfl
  | succ length ih => simp only [baseChainWithin, h.base?_eq, ih]

theorem baseChain_eq (id : TypeId) : t'.baseChain id = t.baseChain id := by
  rw [baseChain, baseChain, h.size_eq, h.baseChainWithin_eq]

theorem selfAndBases_eq (id : TypeId) : t'.selfAndBases id = t.selfAndBases id := by
  rw [selfAndBases, selfAndBases, h.baseChain_eq]

theorem searchInterfaces_eq (found pending : List TypeId) :
    t'.searchInterfaces found pending = t.searchInterfaces found pending := by
  induction found, pending using searchInterfaces.induct t with
  | case1 found => rw [searchInterfaces, searchInterfaces]
  | case2 found id rest hm ih =>
      rw [searchInterfaces, searchInterfaces, if_pos hm, if_pos hm, ih]
  | case3 found id rest hm ih =>
      rw [searchInterfaces, searchInterfaces, if_neg hm, if_neg hm, h.interfaces_eq, ih]

theorem allInterfaces_eq (id : TypeId) : t'.allInterfaces id = t.allInterfaces id := by
  simp only [allInterfaces, h.searchInterfaces_eq, h.selfAndBases_eq, h.interfaces_eq]

theorem lineage_eq (id : TypeId) : t'.lineage id = t.lineage id := by
  rw [lineage, lineage, h.selfAndBases_eq, h.allInterfaces_eq]

theorem isAssignable_eq (target source : TypeId) :
    t'.isAssignable target source = t.isAssignable target source := by
  simp only [isAssignable, h.kind_eq, h.baseChain_eq, h.isInterface_eq, h.allInterfaces_eq]

-- Types as trees

theorem tree_eq (id : TypeId) : t'.tree id = t.tree id := by
  induction hn : id.index using Nat.strongRecOn generalizing id with
  | _ n ih =>
      rw [TypeTable.tree_eq, TypeTable.tree_eq, h.genericArguments_eq]
      congr 1
      refine List.map_congr_left fun a ha => ?_
      exact ih a.index (hn ▸ index_lt_of_mem_genericArguments ha) a rfl

theorem treeMentionsParameter_eq (tree : TypeTree) :
    tree.mentionsParameter t' = tree.mentionsParameter t := by
  induction tree using TypeTree.mentionsParameter.induct with
  | case1 id arguments ih =>
      rw [TypeTree.mentionsParameter, TypeTree.mentionsParameter, h.isGenericParameter_eq,
        h.shape_eq, List.map_congr_left ih]

theorem mentionsParameter_eq (id : TypeId) : t'.mentionsParameter id = t.mentionsParameter id := by
  rw [mentionsParameter, mentionsParameter, h.tree_eq, h.treeMentionsParameter_eq]

theorem isAssignableOpen_eq (target source : TypeId) :
    t'.isAssignableOpen target source = t.isAssignableOpen target source := by
  simp only [isAssignableOpen, h.isGenericParameter_eq, h.mentionsParameter_eq, h.lineage_eq,
    h.openDefinition_eq, h.isAssignable_eq]

theorem treeDisplayName_eq (tree : TypeTree) : tree.displayName t' = tree.displayName t := by
  induction tree using TypeTree.mentionsParameter.induct with
  | case1 id arguments ih =>
      simp only [TypeTree.displayName, h.shape_eq, h.fullName_eq, h.name_eq,
        List.map_congr_left ih]

theorem displayName_eq (id : TypeId) : t'.displayName id = t.displayName id := by
  rw [displayName, displayName, h.tree_eq, h.treeDisplayName_eq]

end

mutual

theorem treeReplaced?_eq (h : t.SameTypes t') (replacements : List TypeId) :
    ∀ tree : TypeTree, tree.replaced? t' replacements = tree.replaced? t replacements
  | .node id arguments => by
    simp only [TypeTree.replaced?, h.kind_eq, h.shape_eq, h.findInstance?_eq,
      treesReplaced?_eq h replacements arguments]

theorem treesReplaced?_eq (h : t.SameTypes t') (replacements : List TypeId) :
    ∀ trees : List TypeTree,
      TypeTree.allReplaced? t' replacements trees = TypeTree.allReplaced? t replacements trees
  | [] => rfl
  | tree :: rest => by
    simp only [TypeTree.allReplaced?, treeReplaced?_eq h replacements tree,
      treesReplaced?_eq h replacements rest]

end

theorem seenFrom_eq (h : t.SameTypes t') (id «instance» : TypeId) :
    t'.seenFrom id «instance» = t.seenFrom id «instance» := by
  simp only [seenFrom, h.genericArguments_eq, h.tree_eq, h.treeReplaced?_eq]

end SameTypes

end TypeTable

-- The namespaces of a table are made of its types alone.

theorem TypeTable.entries_eq (t : TypeTable) :
    t.entries = (List.range t.size).map fun i => (⟨i⟩, t.get ⟨i⟩) := by
  apply List.ext_getElem
  · simp [entries, size]
  · intro i hi hi'
    have hlt : i < t.types.size := by simpa [entries] using hi
    simp [entries, get, hlt]

namespace NamespaceTree

theorem ofTable_eq {t t' : TypeTable} (h : t.SameTypes t') : ofTable t' = ofTable t := by
  rw [ofTable, ofTable, TypeTable.entries_eq, TypeTable.entries_eq, h.size_eq, List.foldl_map,
    List.foldl_map]
  congr 1
  funext tree i
  exact h.get_congr (tree.addType ⟨i⟩) (fun _ => rfl) ⟨i⟩

theorem displayName_eq {t t' : TypeTable} (h : t.SameTypes t') (tree : NamespaceTree)
    (entity : Entity) : tree.displayName t' entity = tree.displayName t entity := by
  cases entity with
  | type id => exact h.displayName_eq id
  | _ => rfl

end NamespaceTree

end EventScript
