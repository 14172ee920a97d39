import EventScript.Host.TypeTree

namespace EventScript

-- How much a conversion may do, and whether a failure is an error or a value.
inductive ConversionMode where
  | implicitCast | implicitTry | explicitCast | explicitTry
deriving DecidableEq, Repr, Inhabited

namespace ConversionMode

def all : List ConversionMode := [implicitCast, implicitTry, explicitCast, explicitTry]

def name : ConversionMode → String
  | implicitCast => "ImplicitCast"
  | implicitTry => "ImplicitTry"
  | explicitCast => "ExplicitCast"
  | explicitTry => "ExplicitTry"

def ofName? (name : String) : Option ConversionMode := all.find? (·.name = name)

-- Whether conversions are allowed that a script has to ask for.
def isExplicit : ConversionMode → Bool
  | explicitCast | explicitTry => true
  | _ => false

-- Whether a failure yields a value instead of an error.
def isTry : ConversionMode → Bool
  | implicitTry | explicitTry => true
  | _ => false

end ConversionMode

-- How strict overload resolution is about an argument.
inductive NarrowingLevel where
  | none | one | two | three | all
deriving DecidableEq, Repr

instance : Inhabited NarrowingLevel := ⟨.all⟩

namespace NarrowingLevel

-- The levels, the strictest first.
def levels : List NarrowingLevel := [none, one, two, three, all]

def name : NarrowingLevel → String
  | none => "None"
  | one => "One"
  | two => "Two"
  | three => "Three"
  | all => "All"

def ofName? (name : String) : Option NarrowingLevel := levels.find? (·.name = name)

-- The conversions that the level allows; the strictest level allows only assignability.
def mode? : NarrowingLevel → Option ConversionMode
  | none => Option.none
  | one => some .implicitCast
  | two => some .implicitTry
  | three => some .explicitCast
  | all => some .explicitTry

end NarrowingLevel

-- Which of two conversion targets is better.
inductive Preference where
  | first | second | equivalent | ambiguous
deriving DecidableEq, Repr, Inhabited

def Preference.name : Preference → String
  | first => "One"
  | second => "Two"
  | equivalent => "Equivalent"
  | ambiguous => "Ambiguous"

inductive Plan where
  | identity
  -- Puts a value type into an object.
  | box
  | assignable
  -- Takes the value out of a wrapper and goes on with it.
  | unwrapExtensible (inner : Plan)
  | userDefined (method : MethodId) (isImplicit : Bool)
  | numericWiden (source target : NumericKind)
  -- Makes `null` an empty nullable.
  | emptyNullable
  -- Makes a value a nullable of its own type.
  | wrapNullable
  -- Converts to the type inside a nullable, then wraps.
  | convertNullable (inner : Plan)
  | nullToReference
  | numericNarrow (source target : NumericKind)
  -- Checks at run time that a reference has a narrower type.
  | downcast
  -- Takes a value type out of an object.
  | unbox
  | failure (mode : ConversionMode)
deriving DecidableEq, Repr, Inhabited

namespace Plan

def isFailure : Plan → Bool
  | failure _ => true
  | _ => false

-- The name of the rule that gave the plan.
def rule : Plan → String
  | identity => "identity"
  | box => "box"
  | assignable => "assignable"
  | unwrapExtensible _ => "unwrap-extensible"
  | userDefined _ _ => "user-defined"
  | numericWiden _ _ => "numeric-widen"
  | emptyNullable | wrapNullable | convertNullable _ => "nullable-wrap"
  | nullToReference => "null-to-reference"
  | numericNarrow _ _ => "numeric-narrow"
  | downcast => "downcast"
  | unbox => "unbox"
  | failure _ => "failure"

def render (t : TypeTable) : Plan → String
  | identity => "Identity"
  | box => "Box"
  | assignable => "Assignable"
  | unwrapExtensible inner => "UnwrapExtensible(" ++ inner.render t ++ ")"
  | userDefined method isImplicit =>
    "UserDefined(" ++ t.signature method ++ ", " ++ (if isImplicit then "implicit" else "explicit") ++ ")"
  | numericWiden source target => "NumericWiden(" ++ source.name ++ " -> " ++ target.name ++ ")"
  | emptyNullable => "NullableWrap(empty)"
  | wrapNullable => "NullableWrap(wrap)"
  | convertNullable inner => "NullableWrap(" ++ inner.render t ++ ")"
  | nullToReference => "NullToReference"
  | numericNarrow source target => "NumericNarrow(" ++ source.name ++ " -> " ++ target.name ++ ")"
  | downcast => "Downcast"
  | unbox => "Unbox"
  | failure mode => "Failure(" ++ mode.name ++ ")"

end Plan

-- A conversion with the type that the converted expression gets.
structure Conversion where
  source : TypeId
  target : TypeId
  mode : ConversionMode
  plan : Plan
  resultType : TypeId
deriving DecidableEq, Repr, Inhabited

namespace Conversion

def isSuccess (c : Conversion) : Bool := !c.plan.isFailure

-- Whether the failure has to be reported: trying is not an error.
def isError (c : Conversion) : Bool := c.plan.isFailure && !c.mode.isTry

def render (t : TypeTable) (c : Conversion) : String :=
  t.displayName c.source ++ " -> " ++ t.displayName c.target ++ " [" ++ c.mode.name ++ "]: " ++
    c.plan.render t

end Conversion

end EventScript
