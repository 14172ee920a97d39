import EventScript.Numeric
import EventScript.Text.Split

namespace EventScript

structure TypeId where
  index : Nat
deriving DecidableEq, Repr, Inhabited

structure MethodId where
  index : Nat
deriving DecidableEq, Repr, Inhabited

def TypeId.render (id : TypeId) : String := s!"#{id.index}"

inductive TypeKind where
  -- The type that every value can be taken as.
  | object
  -- The type of the constant `null` before it is converted.
  | null
  | void
  | boolean
  | string
  | numeric (kind : NumericKind)
  | classType
  | structType
  | interfaceType
  | enumType
  | genericParameter (position : Nat)
deriving DecidableEq, Repr, Inhabited

namespace TypeKind

def name : TypeKind → String
  | object => "object"
  | null => "null"
  | void => "void"
  | boolean => "boolean"
  | string => "string"
  | numeric kind => "numeric:" ++ kind.name
  | classType => "class"
  | structType => "struct"
  | interfaceType => "interface"
  | enumType => "enum"
  | genericParameter position => s!"parameter:{position}"

def simple : List TypeKind :=
  [object, null, void, boolean, string, classType, structType, interfaceType, enumType]

def ofName? (name : String) : Option TypeKind :=
  match Text.split ':' name with
  | ["numeric", kind] => (NumericKind.ofName? kind).map numeric
  | ["parameter", position] => position.toNat?.map genericParameter
  | _ => simple.find? (·.name = name)

end TypeKind

-- How a type takes part in generics.
inductive GenericShape where
  | plain
  -- An open definition with its parameters.
  | definition (parameters : List TypeId)
  -- A definition applied to arguments.
  | instanceOf (definition : TypeId) (arguments : List TypeId)
deriving DecidableEq, Repr, Inhabited

def GenericShape.arguments : GenericShape → List TypeId
  | instanceOf _ arguments => arguments
  | _ => []

def GenericShape.parameters : GenericShape → List TypeId
  | definition parameters => parameters
  | _ => []

structure PropertyDef where
  name : String
  type : TypeId
  isStatic : Bool
deriving DecidableEq, Repr, Inhabited

structure TypeDef where
  -- The dotted namespace that the host declares it in, if any.
  home : Option String
  name : String
  kind : TypeKind
  shape : GenericShape := .plain
  base : Option TypeId := none
  interfaces : List TypeId := []
  isPublic : Bool := true
  methods : List MethodId := []
  properties : List PropertyDef := []
deriving DecidableEq, Repr

-- The description that stands for a type which a table does not hold.
instance : Inhabited TypeDef := ⟨{ home := none, name := "", kind := .void }⟩

namespace TypeDef

-- The number of parameters of a definition; zero for all other types.
def arity (d : TypeDef) : Nat := d.shape.parameters.length

-- What a type is looked up by: its namespace, its name and the number of its parameters.
def lookupName (d : TypeDef) : Option String × String × Nat := (d.home, d.name, d.arity)

def fullName (d : TypeDef) : String :=
  match d.home with
  | some home => home ++ "." ++ d.name
  | none => d.name

-- Whether the type goes by its name: neither a generic parameter nor an instance.
def isNamed (d : TypeDef) : Bool :=
  match d.kind, d.shape with
  | .genericParameter _, _ => false
  | _, .instanceOf _ _ => false
  | _, _ => true

end TypeDef

structure MethodDef where
  name : String
  declaring : TypeId
  parameters : List TypeId
  returns : TypeId
  isStatic : Bool
  isPublic : Bool
  -- Can be called with its first parameter as receiver.
  isExtension : Bool
  -- A conversion that is only used where a script asks for one.
  explicitOnly : Bool
  isStatic_of_isExtension : isExtension = true → isStatic = true
deriving DecidableEq, Repr

-- The description that stands for a method which a table does not hold.
instance : Inhabited MethodDef := ⟨{
  name := "", declaring := default, parameters := [], returns := default, isStatic := false,
  isPublic := false, isExtension := false, explicitOnly := false,
  isStatic_of_isExtension := by simp }⟩

structure TypeTable where
  types : Array TypeDef
  methods : Array MethodDef
  -- The instances by their definitions and arguments, the latest first.
  instances : List ((TypeId × List TypeId) × TypeId)
  -- The named types by what they are looked up by, the latest first.
  names : List ((Option String × String × Nat) × TypeId)
  arguments_older : ∀ (i : Nat) (d : TypeDef), types[i]? = some d →
    ∀ a ∈ d.shape.arguments, a.index < i

namespace TypeTable

instance : Inhabited TypeTable := ⟨⟨#[], #[], [], [], by simp⟩⟩

def size (t : TypeTable) : Nat := t.types.size

def contains (t : TypeTable) (id : TypeId) : Bool := id.index < t.size

def containsMethod (t : TypeTable) (id : MethodId) : Bool := id.index < t.methods.size

def get (t : TypeTable) (id : TypeId) : TypeDef := t.types[id.index]?.getD default

def method (t : TypeTable) (id : MethodId) : MethodDef := t.methods[id.index]?.getD default

theorem get_of_not_contains {t : TypeTable} {id : TypeId} (h : ¬id.index < t.size) :
    t.get id = default := by
  have : t.types[id.index]? = none := Array.getElem?_eq_none (Nat.le_of_not_lt h)
  simp [get, this]

-- Every type with its number, in order.
def entries (t : TypeTable) : List (TypeId × TypeDef) :=
  t.types.toList.zipIdx.map fun (d, i) => (⟨i⟩, d)

def kind (t : TypeTable) (id : TypeId) : TypeKind := (t.get id).kind

def numericKind? (t : TypeTable) (id : TypeId) : Option NumericKind :=
  match t.kind id with
  | .numeric kind => some kind
  | _ => none

def base? (t : TypeTable) (id : TypeId) : Option TypeId := (t.get id).base

def isValueType (t : TypeTable) (id : TypeId) : Bool :=
  match t.kind id with
  | .boolean | .numeric _ | .structType | .enumType => true
  | _ => false

def isReferenceType (t : TypeTable) (id : TypeId) : Bool :=
  match t.kind id with
  | .object | .string | .classType | .interfaceType => true
  | _ => false

def isInterface (t : TypeTable) (id : TypeId) : Bool := t.kind id = .interfaceType

def isGenericParameter (t : TypeTable) (id : TypeId) : Bool :=
  match t.kind id with
  | .genericParameter _ => true
  | _ => false

def genericParameters (t : TypeTable) (id : TypeId) : List TypeId := (t.get id).shape.parameters

def genericArguments (t : TypeTable) (id : TypeId) : List TypeId := (t.get id).shape.arguments

-- The definition of an instance; every other type stands for itself.
def openDefinition (t : TypeTable) (id : TypeId) : TypeId :=
  match (t.get id).shape with
  | .instanceOf definition _ => definition
  | _ => id

def isInstanceOf (t : TypeTable) (id definition : TypeId) : Bool :=
  match (t.get id).shape with
  | .instanceOf d _ => d = definition
  | _ => false

theorem index_lt_of_mem_genericArguments {t : TypeTable} {id a : TypeId}
    (h : a ∈ t.genericArguments id) : a.index < id.index := by
  unfold genericArguments get at h
  match hd : t.types[id.index]? with
  | some d =>
    rw [hd] at h
    exact t.arguments_older _ d hd a h
  | none =>
    rw [hd] at h
    exact absurd (show a ∈ ([] : List TypeId) from h) List.not_mem_nil

-- The named type of that namespace, name and number of parameters.
def find? (t : TypeTable) (home name : String) (arity : Nat) : Option TypeId :=
  t.names.lookup (some home, name, arity)

-- The instance of a definition for these arguments, if it has been created.
def findInstance? (t : TypeTable) (definition : TypeId) (arguments : List TypeId) :
    Option TypeId :=
  t.instances.lookup (definition, arguments)

end TypeTable

-- Every table starts with the same types, so their numbers are known.
namespace TypeId

def object : TypeId := ⟨0⟩

def null : TypeId := ⟨1⟩

def void : TypeId := ⟨2⟩

def boolean : TypeId := ⟨3⟩

def string : TypeId := ⟨4⟩

def numeric (kind : NumericKind) : TypeId := ⟨5 + kind.position⟩

def nullable : TypeId := ⟨17⟩

-- The definition of wrappers that hold one value of another type.
def extensible : TypeId := ⟨19⟩

end TypeId

namespace TypeTable

def systemNamespace : String := "System"

def runtimeNamespace : String := "Quill.Runtime"

-- The types that every table starts with, in the order of their numbers.
def wellKnown : List TypeDef :=
  [{ home := some systemNamespace, name := "Object", kind := .object },
    { home := none, name := "null", kind := .null },
    { home := some systemNamespace, name := "Void", kind := .void },
    { home := some systemNamespace, name := "Boolean", kind := .boolean },
    { home := some systemNamespace, name := "String", kind := .string,
      base := some TypeId.object }] ++
  NumericKind.all.map (fun kind =>
    { home := some systemNamespace, name := kind.name, kind := .numeric kind }) ++
  [{ home := some systemNamespace, name := "Nullable", kind := .structType,
      shape := .definition [⟨18⟩] },
    { home := none, name := "T", kind := .genericParameter 0 },
    { home := some runtimeNamespace, name := "Extensible", kind := .classType,
      shape := .definition [⟨20⟩], base := some TypeId.object,
      properties := [⟨"Value", ⟨20⟩, false⟩] },
    { home := none, name := "T", kind := .genericParameter 0 }]

theorem arguments_of_mem_wellKnown : ∀ d ∈ wellKnown, d.shape.arguments = [] := by decide

def initial : TypeTable where
  types := wellKnown.toArray
  methods := #[]
  instances := []
  names := ((wellKnown.zipIdx.filter fun (d, _) => d.isNamed).map fun (d, i) =>
    (d.lookupName, ⟨i⟩)).reverse
  arguments_older := by
    intro i d h a ha
    have hd : d ∈ wellKnown := by
      rw [List.getElem?_toArray] at h
      exact List.mem_of_getElem? h
    rw [arguments_of_mem_wellKnown d hd] at ha
    exact absurd ha List.not_mem_nil

def nullableUnderlying? (t : TypeTable) (id : TypeId) : Option TypeId :=
  if t.isInstanceOf id .nullable then (t.genericArguments id).head? else none

def extensibleUnderlying? (t : TypeTable) (id : TypeId) : Option TypeId :=
  if t.isInstanceOf id .extensible then (t.genericArguments id).head? else none

end TypeTable

end EventScript
