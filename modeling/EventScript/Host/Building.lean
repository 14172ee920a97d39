import EventScript.Host.TypeTree

namespace EventScript

inductive TypeError where
  | unknownType (id : TypeId)
  | notGenericDefinition (name : String)
  | arityMismatch (name : String) (expected actual : Nat)
  | duplicateType (home name : String)
  -- The bases and interfaces of an instance go on asking for new instances.
  | nestedTooDeep (name : String)
deriving DecidableEq, Repr

def TypeError.message : TypeError → String
  | unknownType id => s!"unknown type id {id.render}"
  | notGenericDefinition name => s!"'{name}' is not a generic type definition"
  | arityMismatch name expected actual =>
    s!"'{name}' expects {expected} type arguments, got {actual}"
  | duplicateType home name => s!"type '{name}' is already defined in namespace '{home}'"
  | nestedTooDeep name => s!"instances of '{name}' are nested too deep"

-- A step that reads and changes the table. What it has done to the table stays when it fails.
abbrev Building := ExceptT TypeError (StateM TypeTable)

structure MethodSpec where
  name : String
  parameters : List TypeId
  returns : TypeId
  isStatic : Bool := false
  isPublic : Bool := true
  isExtension : Bool := false
  explicitOnly : Bool := false
deriving DecidableEq, Repr

def MethodSpec.asExtension (spec : MethodSpec) : MethodSpec :=
  { spec with isStatic := true, isExtension := true }

-- The description that a new instance gets from its definition.
def TypeDef.applied (d : TypeDef) (definition : TypeId) (arguments : List TypeId) : TypeDef where
  home := d.home
  name := d.name
  kind := d.kind
  shape := .instanceOf definition arguments
  isPublic := d.isPublic

namespace TypeTable

-- The table with one more type, whose arguments it must already hold.
def push (t : TypeTable) (d : TypeDef) (h : ∀ a ∈ d.shape.arguments, a.index < t.size) :
    TypeTable where
  types := t.types.push d
  methods := t.methods
  instances := match d.shape with
    | .instanceOf definition arguments => ((definition, arguments), ⟨t.size⟩) :: t.instances
    | _ => t.instances
  names := if d.isNamed then (d.lookupName, ⟨t.size⟩) :: t.names else t.names
  arguments_older := by
    intro i e he a ha
    rw [Array.getElem?_push] at he
    split at he
    · obtain rfl := Option.some.inj he
      rename_i hi
      exact hi ▸ h a ha
    · exact t.arguments_older i e he a ha

def pushMethod (t : TypeTable) (m : MethodDef) : TypeTable :=
  { t with methods := t.methods.push m }

-- The table with one description changed in anything but its generic shape.
def modify (t : TypeTable) (id : TypeId) (f : TypeDef → TypeDef)
    (h : ∀ d, (f d).shape = d.shape) : TypeTable where
  types := t.types.modify id.index f
  methods := t.methods
  instances := t.instances
  names := t.names
  arguments_older := by
    intro i e he a ha
    rw [Array.getElem?_modify] at he
    split at he
    · obtain ⟨d, hd, rfl⟩ := Option.map_eq_some_iff.mp he
      rw [h d] at ha
      exact t.arguments_older i d hd a ha
    · exact t.arguments_older i e he a ha

end TypeTable

namespace Building

def check (id : TypeId) : Building Unit := do
  unless (← get).contains id do throw (.unknownType id)

-- Fails if a type already goes by that name.
def checkNewName (home name : String) (arity : Nat) : Building Unit := do
  if ((← get).find? home name arity).isSome then throw (.duplicateType home name)

def add (d : TypeDef) (h : d.shape.arguments = []) : Building TypeId :=
  modifyGet fun t => (⟨t.size⟩, t.push d (by simp [h]))

-- Classes derive from the type of all objects unless they are told otherwise.
def defaultBase (kind : TypeKind) : Option TypeId :=
  if kind = .classType then some .object else none

def define (home name : String) (kind : TypeKind) : Building TypeId := do
  checkNewName home name 0
  add { home := some home, name, kind, base := defaultBase kind } rfl

-- Adds generic parameters from a position on.
def addParameters : Nat → List String → Building Unit
  | _, [] => pure ()
  | position, name :: names => do
    let _ ← add { home := none, name, kind := .genericParameter position } rfl
    addParameters (position + 1) names

-- Adds an open definition, and its parameters right behind it.
def defineGeneric (home name : String) (kind : TypeKind) (parameters : List String) :
    Building TypeId := do
  checkNewName home name parameters.length
  let first := (← get).size + 1
  let ids := (List.range parameters.length).map fun i => ⟨first + i⟩
  let base := defaultBase kind
  let id ← add { home := some home, name, kind, shape := .definition ids, base } rfl
  addParameters 0 parameters
  return id

-- Changes a type in anything but its generic shape.
def change (id : TypeId) (f : TypeDef → TypeDef) (h : ∀ d, (f d).shape = d.shape) :
    Building Unit :=
  MonadState.modifyGet fun t : TypeTable => ((), t.modify id f h)

def setBase (id base : TypeId) : Building Unit := do
  check id
  check base
  change id (fun d => { d with base := some base }) fun _ => rfl

-- Adds an interface behind those that the type has; one that it has is not added again.
def addInterface (id «interface» : TypeId) : Building Unit := do
  check id
  check «interface»
  change id (fun d => { d with
    interfaces := if «interface» ∈ d.interfaces then d.interfaces
      else d.interfaces ++ [«interface»] }) fun _ => rfl

def setPublic (id : TypeId) (isPublic : Bool) : Building Unit := do
  check id
  change id (fun d => { d with isPublic }) fun _ => rfl

def addProperty (id : TypeId) (name : String) (type : TypeId) (isStatic : Bool) :
    Building Unit := do
  check id
  check type
  change id (fun d => { d with properties := d.properties ++ [⟨name, type, isStatic⟩] }) fun _ => rfl

-- Adds a method that no type has yet.
def pushMethod (m : MethodDef) : Building MethodId :=
  modifyGet fun t => (⟨t.methods.size⟩, t.pushMethod m)

-- Adds a method. Extension methods are always static.
def addMethod (declaring : TypeId) (spec : MethodSpec) : Building MethodId := do
  check declaring
  check spec.returns
  spec.parameters.forM check
  let id ← pushMethod {
    name := spec.name, declaring, parameters := spec.parameters, returns := spec.returns,
    isStatic := spec.isStatic || spec.isExtension, isPublic := spec.isPublic,
    isExtension := spec.isExtension, explicitOnly := spec.explicitOnly,
    isStatic_of_isExtension := by simp_all }
  change declaring (fun d => { d with methods := d.methods ++ [id] }) fun _ => rfl
  return id

-- Adds an instance. Arguments that are not in the table are refused.
def addInstance (d : TypeDef) (definition : TypeId) (arguments : List TypeId) :
    Building TypeId :=
  ExceptT.mk fun t =>
    if h : ∀ a ∈ arguments, a.index < t.size then
      (.ok ⟨t.size⟩, t.push (d.applied definition arguments) h)
    else (.error (.unknownType ((arguments.find? fun a => !t.contains a).getD default)), t)

mutual

-- The type with its parameters replaced by position; `make` finds or creates the instances that
-- result. A parameter without a replacement stays.
def replace (make : TypeId → List TypeId → Building TypeId) (replacements : List TypeId) :
    TypeTree → Building TypeId
  | .node id arguments => do
    let t ← get
    match t.kind id with
    | .genericParameter position => return replacements[position]?.getD id
    | _ =>
      match (t.get id).shape with
      | .instanceOf definition _ => do make definition (← replaceAll make replacements arguments)
      | _ => return id

def replaceAll (make : TypeId → List TypeId → Building TypeId) (replacements : List TypeId) :
    List TypeTree → Building (List TypeId)
  | [] => return []
  | tree :: rest => do
    let first ← replace make replacements tree
    return first :: (← replaceAll make replacements rest)

end

def replaceParameters (make : TypeId → List TypeId → Building TypeId) (replacements : List TypeId)
    (type : TypeId) : Building TypeId := do
  replace make replacements ((← get).tree type)

-- How deep instances may ask for further instances through their bases and interfaces. There are
-- no more numbers for types than this, and every level takes one.
def nestingLimit : Nat := 4294967296

-- The instance of a definition for these arguments, created if there is none. A new instance has
-- the base and the interfaces of its definition with the parameters replaced; members stay on the
-- definition.
def instantiateWithin : Nat → TypeId → List TypeId → Building TypeId
  | 0, definition, _ => do throw (.nestedTooDeep ((← get).get definition).fullName)
  | depth + 1, definition, arguments => do
    check definition
    arguments.forM check
    let t ← get
    let d := t.get definition
    match d.shape with
    | .definition parameters =>
      if parameters.length ≠ arguments.length then
        throw (.arityMismatch d.fullName parameters.length arguments.length)
      match t.findInstance? definition arguments with
      | some existing => return existing
      | none =>
        let id ← addInstance d definition arguments
        let base ← d.base.mapM (replaceParameters (instantiateWithin depth) arguments)
        let interfaces ← d.interfaces.mapM (replaceParameters (instantiateWithin depth) arguments)
        change id (fun d => { d with base, interfaces }) fun _ => rfl
        return id
    | _ => throw (.notGenericDefinition d.fullName)

def instantiate (definition : TypeId) (arguments : List TypeId) : Building TypeId :=
  instantiateWithin nestingLimit definition arguments

def nullableOf (underlying : TypeId) : Building TypeId := instantiate .nullable [underlying]

def extensibleOf (underlying : TypeId) : Building TypeId := instantiate .extensible [underlying]

end Building

end EventScript
