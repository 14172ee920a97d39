import EventScript.Dispatch
import EventScript.Host.Extensions
import EventScript.Host.NamespaceTree

namespace EventScript

-- Namespaces that modules have put under one alias.
structure AliasGroup where
  name : String
  members : List NamespaceId
deriving DecidableEq, Repr, Inhabited

-- A host with the modules loaded so far.
structure Runtime where
  types : TypeTable
  tree : NamespaceTree
  extensions : Extensions
  -- The namespaces that every script sees, in the order of their declaration.
  visible : List NamespaceId
  aliasGroups : List AliasGroup
  loaded : List String
deriving Inhabited

-- What compilations share: the member indices and the dispatch descriptors.
structure Caches where
  members : MemberCache
  descriptors : DescriptorCache
deriving DecidableEq, Repr, Inhabited

def Caches.empty : Caches := ⟨.empty, .empty⟩

-- What loading one module has changed.
structure ModuleLoad where
  already : Bool
  pairs : Nat
  visible : Nat
  aliases : Nat
deriving DecidableEq, Repr, Inhabited

-- A step of loading. What it has done to the host stays when it fails.
abbrev Loading := ExceptT ModuleError (StateM Runtime)

namespace Runtime

def ofTable (types : TypeTable) : Runtime where
  types := types
  tree := .ofTable types
  extensions := .none
  visible := []
  aliasGroups := []
  loaded := []

def isLoaded (r : Runtime) (moduleName : String) : Bool := r.loaded.contains moduleName

def aliasGroup? (r : Runtime) (name : String) : Option AliasGroup :=
  r.aliasGroups.find? (·.name = name)

-- The group of an alias as what a name can stand for.
def aliasEntity? (r : Runtime) (name : String) : Option Entity :=
  (r.aliasGroup? name).map fun group => .group group.name group.members

-- Puts a namespace into the group of an alias; a group is created with its first member.
def addToGroup (name : String) (id : NamespaceId) : List AliasGroup → List AliasGroup
  | [] => [⟨name, [id]⟩]
  | group :: groups =>
    if group.name = name then
      { group with members := Extensions.insertNew group.members id } :: groups
    else group :: addToGroup name id groups

-- Registers the extension methods of a module, which is checked as a whole before anything is kept.
-- The result is the number of new pairs.
def registerExtensions (m : HostModule) : Loading Nat := do
  let r ← get
  match Extensions.scanTypes r.types m.name [] m.types with
  | .error e => throw e
  | .ok found =>
    let extensions := r.extensions.addPairs r.types found
    set { r with extensions }
    return extensions.pairs.length - r.extensions.pairs.length

-- Makes the namespaces of a module visible that the host has; the others are passed over. The result
-- is the number of new ones.
def showNamespaces (m : HostModule) : Loading Nat := do
  let r ← get
  let visible := (m.visible.filterMap r.tree.find?).foldl Extensions.insertNew r.visible
  set { r with visible }
  return visible.length - r.visible.length

-- Adds the aliases of a module for namespaces that the host has. The result is their number.
def declareAliases (m : HostModule) : Loading Nat := do
  let r ← get
  let aliases := m.aliases.filterMap fun a => (r.tree.find? a.target).map fun id => (a.name, id)
  let aliasGroups := aliases.foldl (fun groups (name, id) => addToGroup name id groups)
    r.aliasGroups
  set { r with aliasGroups }
  return aliases.length

-- Loads a module, unless one of its name has been loaded.
def load (m : HostModule) : Loading ModuleLoad := do
  if (← get).isLoaded m.name then return ⟨true, 0, 0, 0⟩
  let pairs ← registerExtensions m
  let visible ← showNamespaces m
  let aliases ← declareAliases m
  modify fun r => { r with loaded := r.loaded ++ [m.name] }
  return ⟨false, pairs, visible, aliases⟩

-- The host with a module loaded, if the module is not refused.
def loadModule (r : Runtime) (m : HostModule) : Except ModuleError (ModuleLoad × Runtime) :=
  match load m r with
  | (.ok load, r) => .ok (load, r)
  | (.error e, _) => .error e

-- Whether scripts can name the type without an import.
def isScriptVisible (r : Runtime) (type : TypeId) : Bool :=
  let definition := r.types.openDefinition type
  let name := (r.types.get definition).name
  r.visible.any fun home => (r.tree.typeGroup home name).any (·.type = definition)

end Runtime

-- The parts of a list of type names; commas inside angle brackets do not separate.
def splitTypeArguments (depth : Nat) : List Char → List (List Char)
  | [] => [[]]
  | c :: rest =>
    if c = ',' ∧ depth = 0 then [] :: splitTypeArguments depth rest
    else
      let depth := if c = '<' then depth + 1 else if c = '>' then depth - 1 else depth
      match splitTypeArguments depth rest with
      | [] => [[c]]
      | part :: parts => (c :: part) :: parts

theorem length_le_of_mem_splitTypeArguments {depth : Nat} {cs part : List Char}
    (h : part ∈ splitTypeArguments depth cs) : part.length ≤ cs.length := by
  induction cs generalizing depth part with
  | nil => simp_all [splitTypeArguments]
  | cons c rest ih =>
    unfold splitTypeArguments at h
    split at h
    · rcases List.mem_cons.mp h with rfl | h
      · simp
      · exact Nat.le_succ_of_le (ih h)
    · dsimp only at h
      split at h
      · simp_all
      · rename_i first others hs
        rcases List.mem_cons.mp h with rfl | h
        · have := ih (hs ▸ List.mem_cons_self)
          simp only [List.length_cons]
          omega
        · exact Nat.le_succ_of_le (ih (hs ▸ List.mem_cons_of_mem _ h))

-- The text without a closing bracket at its end.
def dropClosing? (cs : List Char) : Option (List Char) :=
  if cs.getLast? = some '>' then some cs.dropLast else none

namespace Runtime

theorem length_trimChars_le (cs : List Char) : (Text.trimChars cs).length ≤ cs.length := by
  have h := (List.dropWhile_suffix Text.isBlank (l := cs)).length_le
  have h' := (List.dropWhile_suffix Text.isBlank (l := (cs.dropWhile Text.isBlank).reverse)).length_le
  simp only [Text.trimChars, List.length_reverse] at *
  omega

theorem length_cutFirst?_lt {separator : Char} {cs before behind : List Char}
    (h : Text.cutFirst? separator cs = some (before, behind)) : behind.length < cs.length := by
  have hs := (List.dropWhile_suffix (· ≠ separator) (l := cs)).length_le
  unfold Text.cutFirst? at h
  split at h
  · simp at h
  · rename_i hd
    simp only [Option.some.injEq, Prod.mk.injEq] at h
    rw [hd, h.2] at hs
    exact hs

theorem length_dropClosing?_le {cs inner : List Char} (h : dropClosing? cs = some inner) :
    inner.length ≤ cs.length := by
  unfold dropClosing? at h
  split at h
  · simp only [Option.some.injEq] at h
    simp [← h, List.length_dropLast]
  · simp at h

-- The named type whose full name is split at its last point.
def findNamed? (r : Runtime) (fullName : List Char) (arity : Nat) : Option TypeId := do
  let (home, name) ← Text.cutLast? '.' fullName
  r.types.find? (String.ofList home) (String.ofList name) arity

-- The type with that full name: a named type, or an instance with its arguments in angle brackets,
-- if it has been created. Blanks around the name and around each argument do not count.
def findTypeChars? (r : Runtime) (name : List Char) : Option TypeId :=
  match _hc : Text.cutFirst? '<' (Text.trimChars name) with
  | none => r.findNamed? (Text.trimChars name) 0
  | some (fullName, behind) =>
    match _hd : dropClosing? behind with
    | none => none
    | some inner => do
      let arguments ← (splitTypeArguments 0 inner).attach.mapM fun part => r.findTypeChars? part.1
      let definition ← r.findNamed? fullName arguments.length
      r.types.findInstance? definition arguments
termination_by name.length
decreasing_by
  have hp := length_le_of_mem_splitTypeArguments part.2
  have ht := length_trimChars_le name
  have hc := length_cutFirst?_lt _hc
  have hd := length_dropClosing?_le _hd
  omega

def findType? (r : Runtime) (name : String) : Option TypeId := r.findTypeChars? name.toList

end Runtime

end EventScript
