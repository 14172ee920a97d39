import EventScript.Runtime

namespace EventScript

-- The aliases and imports of a script.
structure NameScope where
  aliases : List (String × Entity)
  imports : List NamespaceId
deriving DecidableEq, Repr, Inhabited

-- What the search for a name comes to.
inductive NameResolution where
  | found (entity : Entity)
  | unknown
  | ambiguous (first second : TypeId)
deriving DecidableEq, Repr, Inhabited

namespace NameScope

def empty : NameScope := ⟨[], []⟩

def isImported (scope : NameScope) (id : NamespaceId) : Bool := scope.imports.contains id

-- Imports a namespace; importing it again changes nothing.
def importNamespace (scope : NameScope) (id : NamespaceId) : NameScope :=
  { scope with imports := Extensions.insertNew scope.imports id }

def hasAlias (scope : NameScope) (name : String) : Bool := (scope.aliases.lookup name).isSome

-- Declares an alias. The first declaration of a name holds.
def addAlias (scope : NameScope) (name : String) (entity : Entity) : NameScope :=
  if scope.hasAlias name then scope
  else { scope with aliases := scope.aliases ++ [(name, entity)] }

-- The alias of that name: one of the script, or else one that modules have declared.
def alias? (scope : NameScope) (r : Runtime) (name : String) : Option Entity :=
  match scope.aliases.lookup name with
  | some entity => some entity
  | none => r.aliasEntity? name

-- The namespaces in which a simple name is searched: the imported, then the visible ones.
def searched (scope : NameScope) (r : Runtime) : List NamespaceId :=
  r.visible.foldl Extensions.insertNew scope.imports

-- What a name stands for when nothing but the searched namespaces knows it.
def resolveSearched (scope : NameScope) (r : Runtime) (name : String) (arity : Nat) :
    NameResolution :=
  let hits := (scope.searched r).filterMap fun home => r.tree.lookup? home name arity
  match (hits.filterMap Entity.type?).foldl Extensions.insertNew [] with
  | [] =>
    match hits.head? with
    | some entity => .found entity
    | none => .unknown
  | [only] => .found (.type only)
  | first :: second :: _ => .ambiguous first second

-- What a simple name with a number of type arguments stands for: an alias of the script first, then a
-- top-level namespace, then what the searched namespaces know.
def resolve (scope : NameScope) (r : Runtime) (name : String) (arity : Nat) : NameResolution :=
  match scope.aliases.lookup name with
  | some entity => .found entity
  | none =>
    match r.tree.child? .root name with
    | some id => .found (.namespace id)
    | none => scope.resolveSearched r name arity

-- Whether a script can use the type: it is visible to all, or its namespace is imported.
def isTypeVisible (scope : NameScope) (r : Runtime) (type : TypeId) : Bool :=
  r.isScriptVisible type ||
    match (r.types.get (r.types.openDefinition type)).home with
    | some home => scope.imports.any fun id => (r.tree.get id).fullName = home
    | none => false

-- Whether the method can be called on a receiver of that type as an extension.
def extends? (r : Runtime) (receiver : TypeId) (id : MethodId) : Bool :=
  let m := r.types.method id
  m.isUsableExtension &&
    match m.parameters with
    | first :: _ => r.types.isAssignableOpen first receiver
    | [] => false

-- The methods of that name of several providers.
def providedMethods (r : Runtime) (name : String) : List TypeId → MemberSearch (List MethodId)
  | [] => pure []
  | provider :: rest => do
    let index ← MemberCache.members r.types provider
    return index.named name ++ (← providedMethods r name rest)

-- The extension methods of that name on a receiver, from the providers that the script sees.
def extensionMethods (scope : NameScope) (r : Runtime) (receiver : TypeId) (name : String) :
    MemberSearch (List MethodId) := do
  let providers := r.extensions.providers r.types (r.types.openDefinition receiver)
  let methods ← providedMethods r name (providers.filter (scope.isTypeVisible r))
  return methods.filter (extends? r receiver)

end NameScope

end EventScript
