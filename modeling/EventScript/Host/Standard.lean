import EventScript.Host.Building
import EventScript.Runtime

namespace EventScript.Standard

open Building

-- The types of the system that the game and the modules refer to.
structure SystemTypes where
  math : TypeId
  list : TypeId
  enumerableExtensions : TypeId

def collections : String := "System.Collections.Generic"

def int : TypeId := .numeric .int32

def double : TypeId := .numeric .double

def decimal : TypeId := .numeric .decimal

def instanceMethod (owner : TypeId) (name : String) (parameters : List TypeId) (returns : TypeId) :
    Building Unit := do
  let _ ← addMethod owner { name, parameters, returns }

def staticMethod (owner : TypeId) (name : String) (parameters : List TypeId) (returns : TypeId) :
    Building Unit := do
  let _ ← addMethod owner { name, parameters, returns, isStatic := true }

def extensionMethod (owner : TypeId) (name : String) (parameters : List TypeId)
    (returns : TypeId) : Building Unit := do
  let _ ← addMethod owner (MethodSpec.asExtension { name, parameters, returns })

def defineMath : Building TypeId := do
  let math ← define "System" "Math" .classType
  for name in ["Max", "Min"] do
    for type in [int, double] do
      staticMethod math name [type, type] type
  for type in [int, double] do
    staticMethod math "Abs" [type] type
  staticMethod math "Round" [double] double
  addProperty math "PI" double true
  addProperty math "E" double true
  return math

-- Lists and what can be enumerated, with the extensions on the latter.
def defineCollections (math : TypeId) : Building SystemTypes := do
  let enumerable ← defineGeneric collections "IEnumerable" .interfaceType ["T"]
  let list ← defineGeneric collections "List" .classType ["T"]
  let item := ((← get).genericParameters list).headD list
  addInterface list (← instantiate enumerable [item])
  addProperty list "Count" int false
  instanceMethod list "get_Item" [int] item
  instanceMethod list "Contains" [item] .boolean
  let element := ((← get).genericParameters enumerable).headD enumerable
  let enumerableExtensions ← define "System.Linq" "Enumerable" .classType
  extensionMethod enumerableExtensions "Count" [enumerable] int
  extensionMethod enumerableExtensions "Any" [enumerable] .boolean
  extensionMethod enumerableExtensions "First" [enumerable] element
  return ⟨math, list, enumerableExtensions⟩

def defineSystem : Building SystemTypes := do
  let comparable ← define "System" "IComparable" .interfaceType
  instanceMethod comparable "CompareTo" [.object] int
  let system ← defineCollections (← defineMath)
  for type in [int, double] do
    let _ ← instantiate system.list [type]
    let _ ← nullableOf type
  let _ ← extensibleOf int
  let _ ← extensibleOf double
  return system

-- Credits are taken as decimals, but made whole numbers only by a cast.
def defineCredits : Building TypeId := do
  let credits ← define "Supremacy.Game" "Credits" .structType
  addProperty credits "CurrentValue" int false
  staticMethod credits implicitOperator [credits] decimal
  let _ ← addMethod credits {
    name := explicitOperator, parameters := [credits], returns := int
    isStatic := true, explicitOnly := true }
  return credits

-- The types of the game; the result is the type with its extension methods.
def defineGame (system : SystemTypes) : Building TypeId := do
  let credits ← defineCredits
  let populated ← define "Supremacy.Game" "IPopulated" .interfaceType
  addProperty populated "Population" int false
  let civilization ← define "Supremacy.Game" "Civilization" .classType
  addProperty civilization "Name" .string false
  addProperty civilization "Credits" credits false
  let gameSector ← define "Supremacy.Game" "Sector" .classType
  addProperty gameSector "Name" .string false
  let mapSector ← define "Supremacy.Universe" "Sector" .classType
  addProperty mapSector "X" int false
  addProperty mapSector "Y" int false
  let colony ← define "Supremacy.Game" "Colony" .classType
  addInterface colony populated
  let morale ← extensibleOf int
  let growth ← extensibleOf double
  addProperty colony "Name" .string false
  addProperty colony "Morale" morale false
  addProperty colony "Growth" growth false
  addProperty colony "Owner" civilization false
  addProperty colony "Sector" gameSector false
  addProperty colony "Location" mapSector false
  addProperty colony "Tag" .object false
  instanceMethod colony "Produce" [double] double
  let colonyExtensions ← define "Supremacy.Game" "ColonyExtensions" .classType
  extensionMethod colonyExtensions "GrowthRate" [populated] double
  extensionMethod colonyExtensions "IsOwnedBy" [colony, civilization] .boolean
  let _ ← instantiate system.list [colony]
  let _ ← instantiate system.list [civilization]
  return colonyExtensions

-- The modules that are loaded from the start.
def modules (system : SystemTypes) (colonyExtensions : TypeId) : List HostModule :=
  [{ name := "system", types := [system.math, system.enumerableExtensions],
     visible := ["System", collections, "System.Linq"] },
   { name := "game", types := [colonyExtensions],
     aliases := [⟨"Game", "Supremacy.Game"⟩] }]

-- Why the host cannot be set up.
inductive HostError where
  | metadata (e : TypeError)
  | refused (e : ModuleError)
deriving DecidableEq, Repr

def HostError.message : HostError → String
  | metadata e => s!"invalid host metadata: {e.message}"
  | refused e => s!"failed to load host module: {e.message}"

-- Every type of the host, and the modules to be loaded.
def build : Building (List HostModule) := do
  let system ← defineSystem
  return modules system (← defineGame system)

def host? : Except HostError Runtime := do
  match build .initial with
  | (.error e, _) => .error (.metadata e)
  | (.ok toLoad, types) =>
    toLoad.foldlM (fun r m =>
      match r.loadModule m with
      | .error e => .error (.refused e)
      | .ok (_, r) => .ok r) (Runtime.ofTable types)

def host : Runtime :=
  match host? with
  | .ok r => r
  | .error _ => .ofTable .initial

end EventScript.Standard
