import EventScript.Host.Inheritance

namespace EventScript

structure NamespaceAlias where
  name : String
  target : String
deriving DecidableEq, Repr, Inhabited

-- A unit in which a host makes types available.
structure HostModule where
  name : String
  types : List TypeId := []
  -- Namespaces that every script sees without importing them.
  visible : List String := []
  aliases : List NamespaceAlias := []
deriving DecidableEq, Repr, Inhabited

inductive ModuleError where
  | unknownType (moduleName : String) (id : TypeId)
  | extensionWithoutReceiver (signature : String)
deriving DecidableEq, Repr

def ModuleError.message : ModuleError → String
  | unknownType moduleName id => s!"module '{moduleName}' references unknown type {id.render}"
  | extensionWithoutReceiver signature =>
    s!"extension method '{signature}' has no receiver parameter"

-- An open type and a type with extension methods on it.
structure ExtensionPair where
  extended : TypeId
  provider : TypeId
deriving DecidableEq, Repr, Inhabited

-- The pairs of all loaded modules, in the order of their registration and without repetition.
structure Extensions where
  pairs : List ExtensionPair
  -- Whether some extended type is an interface. Until then no search visits interfaces.
  onInterfaces : Bool
deriving DecidableEq, Repr, Inhabited

-- Whether scripts can call the method on its first parameter.
def MethodDef.isUsableExtension (m : MethodDef) : Bool := m.isPublic && m.isStatic && m.isExtension

namespace Extensions

def none : Extensions := ⟨[], false⟩

-- Adds what is not in the list yet.
def insertNew {α : Type} [DecidableEq α] (items : List α) (item : α) : List α :=
  if item ∈ items then items else items ++ [item]

theorem mem_insertNew {α : Type} [DecidableEq α] {items : List α} {item other : α} :
    other ∈ insertNew items item ↔ other ∈ items ∨ other = item := by
  unfold insertNew
  split
  · rename_i hm
    exact ⟨.inl, fun h => h.elim id fun he => he ▸ hm⟩
  · simp

theorem mem_foldl_insertNew {α : Type} [DecidableEq α] {items more : List α} {other : α} :
    other ∈ more.foldl insertNew items ↔ other ∈ items ∨ other ∈ more := by
  induction more generalizing items with
  | nil => simp
  | cons item more ih => rw [List.foldl_cons, ih, mem_insertNew, List.mem_cons, or_assoc]

-- The pairs that the methods of a provider make, behind those found before.
def scanMethods (t : TypeTable) (provider : TypeId) (found : List ExtensionPair) :
    List MethodId → Except ModuleError (List ExtensionPair)
  | [] => .ok found
  | id :: rest =>
    let m := t.method id
    if m.isUsableExtension then
      match m.parameters with
      | [] => .error (.extensionWithoutReceiver (t.signature id))
      | receiver :: _ =>
        scanMethods t provider (insertNew found ⟨t.openDefinition receiver, provider⟩) rest
    else scanMethods t provider found rest

-- The pairs of the types of a module, behind those found before.
def scanTypes (t : TypeTable) (moduleName : String) (found : List ExtensionPair) :
    List TypeId → Except ModuleError (List ExtensionPair)
  | [] => .ok found
  | provider :: rest =>
    if t.contains provider then do
      let found ← scanMethods t provider found (t.get provider).methods
      scanTypes t moduleName found rest
    else .error (.unknownType moduleName provider)

-- Adds pairs that have been found, and takes note of those on interfaces.
def addPairs (extensions : Extensions) (t : TypeTable) (found : List ExtensionPair) :
    Extensions where
  pairs := found.foldl insertNew extensions.pairs
  onInterfaces := extensions.onInterfaces || found.any fun pair => t.isInterface pair.extended

-- The providers registered for one open type.
def providersOf (extensions : Extensions) (extended : TypeId) : List TypeId :=
  (extensions.pairs.filter (·.extended = extended)).map (·.provider)

-- The open types under which extension methods of a type are searched.
def searched (extensions : Extensions) (t : TypeTable) (type : TypeId) : List TypeId :=
  (t.selfAndBases type).flatMap fun current =>
    let interfaces := if extensions.onInterfaces then t.allInterfaces current else []
    (current :: interfaces).map t.openDefinition

-- The providers for a type, its base types and its interfaces, each once.
def providers (extensions : Extensions) (t : TypeTable) (type : TypeId) : List TypeId :=
  ((extensions.searched t type).flatMap extensions.providersOf).foldl insertNew []

end Extensions

end EventScript
