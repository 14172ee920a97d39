import EventScript.Host.Inheritance

namespace EventScript

-- The methods of one definition, grouped by name.
structure MemberIndex where
  groups : List (String × List MethodId)
deriving DecidableEq, Repr, Inhabited

namespace MemberIndex

-- The methods of that name, in the order of their declaration.
def named (index : MemberIndex) (name : String) : List MethodId :=
  (index.groups.lookup name).getD []

def contains (index : MemberIndex) (name : String) : Bool := (index.groups.lookup name).isSome

def names (index : MemberIndex) : List String := index.groups.map (·.1)

-- Adds a method behind those of its name.
def add (name : String) (method : MethodId) :
    List (String × List MethodId) → List (String × List MethodId)
  | [] => [(name, [method])]
  | (other, methods) :: rest =>
    if other = name then (other, methods ++ [method]) :: rest
    else (other, methods) :: add name method rest

def build (t : TypeTable) (definition : TypeId) : MemberIndex :=
  ⟨(t.get definition).methods.foldl (fun groups m => add (t.method m).name m groups) []⟩

end MemberIndex

-- The indices built so far, under the definitions they belong to.
structure MemberCache where
  entries : List (TypeId × MemberIndex)
deriving DecidableEq, Repr, Inhabited

-- A computation that may look members up.
abbrev MemberSearch := StateM MemberCache

namespace MemberCache

def empty : MemberCache := ⟨[]⟩

def size (cache : MemberCache) : Nat := cache.entries.length

-- The index of the definition of a type, built if it is not there.
def members (t : TypeTable) (type : TypeId) : MemberSearch MemberIndex := fun cache =>
  let definition := t.openDefinition type
  match cache.entries.lookup definition with
  | some index => (index, cache)
  | none =>
    let index := MemberIndex.build t definition
    (index, ⟨cache.entries ++ [(definition, index)]⟩)

-- The methods of that name on the first of the types that declares any.
def lookupAlong (t : TypeTable) (name : String) : List TypeId → MemberSearch (List MethodId)
  | [] => pure []
  | owner :: owners => do
    let index ← members t owner
    if index.contains name then pure (index.named name) else lookupAlong t name owners

-- The methods of that name on the type or the nearest base type that declares any.
def lookup (t : TypeTable) (type : TypeId) (name : String) : MemberSearch (List MethodId) :=
  lookupAlong t name (t.selfAndBases type)

end MemberCache

end EventScript
