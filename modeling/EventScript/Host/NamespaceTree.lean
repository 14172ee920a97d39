import EventScript.Host.TypeTree
import EventScript.Text.Split

namespace EventScript

structure NamespaceId where
  index : Nat
deriving DecidableEq, Repr, Inhabited

structure Namespace where
  name : String
  fullName : String
  parent : Option NamespaceId
deriving DecidableEq, Repr, Inhabited

-- A type where it can be found: by its namespace, its name and its number of parameters.
structure PlacedType where
  home : NamespaceId
  name : String
  arity : Nat
  type : TypeId
deriving DecidableEq, Repr, Inhabited

-- What a name can stand for above the level of values.
inductive Entity where
  | «namespace» (id : NamespaceId)
  -- Several namespaces that share an alias.
  | group (name : String) (members : List NamespaceId)
  | type (id : TypeId)
deriving DecidableEq, Repr, Inhabited

namespace Entity

def type? : Entity → Option TypeId
  | type id => some id
  | _ => none

def namespaces : Entity → List NamespaceId
  | «namespace» id => [id]
  | group _ members => members
  | type _ => []

end Entity

-- The namespaces in the order in which they were met, the root first.
structure NamespaceTree where
  nodes : Array Namespace
  placed : List PlacedType
deriving Repr, Inhabited

namespace NamespaceId

def root : NamespaceId := ⟨0⟩

end NamespaceId

-- The parts of a dotted path; points that follow each other count as one.
def pathSegments (path : String) : List String := (Text.split '.' path).filter (· ≠ "")

namespace NamespaceTree

def rootOnly : NamespaceTree := ⟨#[⟨"", "", none⟩], []⟩

def get (tree : NamespaceTree) (id : NamespaceId) : Namespace := tree.nodes[id.index]?.getD default

def child? (tree : NamespaceTree) (parent : NamespaceId) (name : String) : Option NamespaceId :=
  (tree.nodes.findIdx? fun node => node.parent = some parent && node.name = name).map .mk

def children (tree : NamespaceTree) (parent : NamespaceId) : List NamespaceId :=
  let inside := tree.nodes.toList.zipIdx.filter fun (node, _) => node.parent = some parent
  (inside.mergeSort fun a b => a.1.name ≤ b.1.name).map fun (_, i) => ⟨i⟩

-- The namespace of that name inside another, added if it is missing.
def ensureChild (tree : NamespaceTree) (parent : NamespaceId) (name : String) :
    NamespaceTree × NamespaceId :=
  match tree.child? parent name with
  | some child => (tree, child)
  | none =>
    let above := (tree.get parent).fullName
    let fullName := if above.isEmpty then name else above ++ "." ++ name
    ({ tree with nodes := tree.nodes.push ⟨name, fullName, some parent⟩ }, ⟨tree.nodes.size⟩)

-- The namespace with that path, added with all those above it that are missing.
def ensure (tree : NamespaceTree) (path : List String) : NamespaceTree × NamespaceId :=
  path.foldl (fun (tree, parent) name => tree.ensureChild parent name) (tree, .root)

-- Places a type; one of the same name and number of parameters gives way to it.
def place (tree : NamespaceTree) (new : PlacedType) : NamespaceTree :=
  let others := tree.placed.filter fun old =>
    !(old.home = new.home && old.name = new.name && old.arity = new.arity)
  { tree with placed := others ++ [new] }

-- Places one entry of a table, if scripts can name it.
def addType (tree : NamespaceTree) (id : TypeId) (d : TypeDef) : NamespaceTree :=
  match d.home with
  | some home =>
    if d.isPublic && d.isNamed then
      let (tree, parent) := tree.ensure (pathSegments home)
      tree.place ⟨parent, d.name, d.arity, id⟩
    else tree
  | none => tree

def ofTable (types : TypeTable) : NamespaceTree :=
  types.entries.foldl (fun tree (id, d) => tree.addType id d) rootOnly

-- The namespace with that dotted path; the empty path is the root.
def find? (tree : NamespaceTree) (path : String) : Option NamespaceId :=
  (pathSegments path).foldlM tree.child? .root

-- The types of a name in a namespace, by their number of parameters.
def typeGroup (tree : NamespaceTree) (home : NamespaceId) (name : String) : List PlacedType :=
  (tree.placed.filter fun p => p.home = home && p.name = name).mergeSort fun a b => a.arity ≤ b.arity

-- The type of that name and number of parameters in a namespace.
def type? (tree : NamespaceTree) (home : NamespaceId) (name : String) (arity : Nat) :
    Option TypeId :=
  (tree.placed.find? fun p => p.home = home && p.name = name && p.arity = arity).map (·.type)

-- What a name stands for inside a namespace; a namespace hides types of its name.
def lookup? (tree : NamespaceTree) (home : NamespaceId) (name : String) (arity : Nat) :
    Option Entity :=
  match tree.child? home name with
  | some child => some (.namespace child)
  | none => (tree.type? home name arity).map .type

-- What a name stands for inside an entity: the first of its namespaces that knows it decides.
def lookupIn? (tree : NamespaceTree) (entity : Entity) (name : String) (arity : Nat) :
    Option Entity :=
  entity.namespaces.findSome? fun home => tree.lookup? home name arity

def displayName (tree : NamespaceTree) (types : TypeTable) : Entity → String
  | .namespace id => (tree.get id).fullName
  | .group name _ => name
  | .type id => types.displayName id

end NamespaceTree

end EventScript
