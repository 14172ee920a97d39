import EventScript.Host.TypeTable

namespace EventScript

-- A type and its generic arguments, all the way down.
inductive TypeTree where
  | node (id : TypeId) (arguments : List TypeTree)
deriving Repr, Inhabited

namespace TypeTree

def id : TypeTree → TypeId
  | node id _ => id

def arguments : TypeTree → List TypeTree
  | node _ arguments => arguments

-- The name with the arguments, or the parameters of a definition, in angle brackets.
def displayName (t : TypeTable) : TypeTree → String
  | node id arguments =>
    let d := t.get id
    let bracketed (names : List String) : String := d.fullName ++ "<" ++ ", ".intercalate names ++ ">"
    match d.shape with
    | .plain => d.fullName
    | .definition parameters => bracketed (parameters.map fun p => (t.get p).name)
    | .instanceOf _ _ => bracketed (arguments.map (displayName t))

-- Whether a generic parameter occurs; an open definition stands for its parameters.
def mentionsParameter (t : TypeTable) : TypeTree → Bool
  | node id arguments =>
    t.isGenericParameter id ||
      match (t.get id).shape with
      | .plain => false
      | .definition _ => true
      | .instanceOf _ _ => (arguments.map (mentionsParameter t)).or
termination_by tree => sizeOf tree

mutual

-- The type with its parameters replaced, by position, by `replacements`; none if a parameter has no
-- replacement or the instance that results has never been created.
def replaced? (t : TypeTable) (replacements : List TypeId) : TypeTree → Option TypeId
  | node id arguments =>
    match t.kind id with
    | .genericParameter position => replacements[position]?
    | _ =>
      match (t.get id).shape with
      | .instanceOf definition _ => do
        t.findInstance? definition (← allReplaced? t replacements arguments)
      | _ => some id

def allReplaced? (t : TypeTable) (replacements : List TypeId) :
    List TypeTree → Option (List TypeId)
  | [] => some []
  | tree :: rest => do
    let first ← replaced? t replacements tree
    some (first :: (← allReplaced? t replacements rest))

end

end TypeTree

namespace TypeTable

def tree (t : TypeTable) (id : TypeId) : TypeTree :=
  .node id ((t.genericArguments id).attach.map fun a => t.tree a.1)
termination_by id.index
decreasing_by exact index_lt_of_mem_genericArguments a.2

theorem tree_eq (t : TypeTable) (id : TypeId) :
    t.tree id = .node id ((t.genericArguments id).map t.tree) := by
  rw [tree]
  simp

@[simp] theorem id_tree (t : TypeTable) (id : TypeId) : (t.tree id).id = id := by
  rw [tree_eq, TypeTree.id]

-- The name of a type as messages show it.
def displayName (t : TypeTable) (id : TypeId) : String := (t.tree id).displayName t

def mentionsParameter (t : TypeTable) (id : TypeId) : Bool := (t.tree id).mentionsParameter t

-- The type as seen from an instance: the parameters replaced by the arguments of the instance. A
-- type that cannot be replaced so stays as it is.
def seenFrom (t : TypeTable) (id «instance» : TypeId) : TypeId :=
  match t.genericArguments «instance» with
  | [] => id
  | arguments => ((t.tree id).replaced? t arguments).getD id

-- The declaring type, the name and the parameter types of a method.
def signature (t : TypeTable) (id : MethodId) : String :=
  let m := t.method id
  t.displayName m.declaring ++ "." ++ m.name ++ "(" ++
    ", ".intercalate (m.parameters.map t.displayName) ++ ")"

end TypeTable

end EventScript
