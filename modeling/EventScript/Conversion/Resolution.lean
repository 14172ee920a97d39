import EventScript.Conversion
import EventScript.Host.Members

namespace EventScript

-- The method names that declare implicit and explicit conversions.
def implicitOperator : String := "op_Implicit"

def explicitOperator : String := "op_Explicit"

namespace Conversion

variable (t : TypeTable)

def widening? (source target : TypeId) : Option Plan := do
  let sourceKind ← t.numericKind? source
  let targetKind ← t.numericKind? target
  if sourceKind.widensTo targetKind then some (.numericWiden sourceKind targetKind) else none

-- Takes the value out of a wrapper when nothing but assignability or widening is left to do.
def unwrapping? (source target : TypeId) : Option Plan := do
  let underlying ← t.extensibleUnderlying? source
  if underlying = target then some (.unwrapExtensible .identity)
  else if t.isAssignable target underlying then some (.unwrapExtensible .assignable)
  else (widening? t underlying target).map .unwrapExtensible

-- The rules that need no members: the same type, boxing, assignability and unwrapping.
def structural? (source target : TypeId) : Option Plan :=
  if source = target then some .identity
  else if target = .object ∧ t.isValueType source then some .box
  else if t.isAssignable target source then some .assignable
  else unwrapping? t source target

-- Whether the method converts `source` to `target`; some only do so explicitly.
def converts (source target : TypeId) (isImplicit : Bool) (id : MethodId) : Bool :=
  let m := t.method id
  m.isPublic && m.isStatic && !(isImplicit && m.explicitOnly) && m.returns = target &&
    match m.parameters with
    | [parameter] => t.isAssignable parameter source
    | _ => false

-- A place to look for a conversion method: its owner, its name and how it may be used.
structure MethodQuery where
  owner : TypeId
  name : String
  isImplicit : Bool

-- The places in the order in which they are asked: implicit conversions before explicit ones, the
-- operator before the method named after the target, the source before the target.
def methodQueries (source target : TypeId) (mode : ConversionMode) : List MethodQuery :=
  let named := "ConvertTo" ++ (t.get target).name
  let names := [(implicitOperator, true), (named, true)] ++
    if mode.isExplicit then [(explicitOperator, false), (named, false)] else []
  names.flatMap fun (name, isImplicit) =>
    [source, target].map fun owner => ⟨owner, name, isImplicit⟩

-- The plan of the first place that has a suitable method.
def firstMethod? (source target : TypeId) : List MethodQuery → MemberSearch (Option Plan)
  | [] => pure none
  | query :: queries => do
    let methods ← MemberCache.lookup t query.owner query.name
    match methods.find? (converts t source target query.isImplicit) with
    | some method => pure (some (.userDefined method query.isImplicit))
    | none => firstMethod? source target queries

-- A conversion method for the source, or for the value inside it if it is a wrapper.
def userDefined? (source target : TypeId) (mode : ConversionMode) : MemberSearch (Option Plan) :=
  match t.extensibleUnderlying? source with
  | some underlying => do
    let plan ← firstMethod? t underlying target (methodQueries t underlying target mode)
    pure (plan.map .unwrapExtensible)
  | none => firstMethod? t source target (methodQueries t source target mode)

-- The conversions that a script has to ask for. Narrowing is never just tried.
def forced? (source target : TypeId) (mode : ConversionMode) : Option Plan :=
  match t.numericKind? source, t.numericKind? target with
  | some sourceKind, some targetKind =>
    if mode = .explicitCast then some (.numericNarrow sourceKind targetKind) else none
  | _, _ =>
    if t.isAssignable source target then
      some (if t.isValueType target then .unbox else .downcast)
    else none

-- The rules behind those for nullable targets.
def lastResort (source target : TypeId) (mode : ConversionMode) : Plan :=
  if source = .null ∧ t.isReferenceType target then .nullToReference
  else if mode.isExplicit then (forced? t source target mode).getD (.failure mode)
  else .failure mode

theorem index_lt_of_nullableUnderlying? {target underlying : TypeId}
    (h : t.nullableUnderlying? target = some underlying) : underlying.index < target.index := by
  unfold TypeTable.nullableUnderlying? at h
  split at h
  · exact t.index_lt_of_mem_genericArguments (List.mem_of_mem_head? h)
  · simp at h

-- The plan for a conversion: the rules are asked in a fixed order, and the first that applies decides.
-- For a nullable target an explicit conversion goes on to the type inside it, which is older than the
-- target; a failure there is the failure of the whole.
def selectPlan (source target : TypeId) (mode : ConversionMode) : MemberSearch Plan :=
  match structural? t source target with
  | some plan => pure plan
  | none => do
    match ← userDefined? t source target mode with
    | some plan => pure plan
    | none =>
      match widening? t source target with
      | some plan => pure plan
      | none =>
        match _h : t.nullableUnderlying? target with
        | none => pure (lastResort t source target mode)
        | some underlying =>
          if source = .null then pure .emptyNullable
          else if source = underlying then pure .wrapNullable
          else if mode.isExplicit ∧ source ≠ .object then do
            let inner ← selectPlan source underlying mode
            pure (if inner.isFailure then .failure mode else .convertNullable inner)
          else pure (lastResort t source target mode)
termination_by target.index
decreasing_by exact index_lt_of_nullableUnderlying? t _h

-- The conversion between two types. Trying to get a value type gives an object, which can also hold
-- the mark of a failure.
def resolve (source target : TypeId) (mode : ConversionMode) : MemberSearch Conversion := do
  let plan ← selectPlan t source target mode
  let resultType := if mode.isTry ∧ t.isValueType target then .object else target
  pure ⟨source, target, mode, plan, resultType⟩

-- Whether an argument of one type can be passed for a parameter of another.
def isPossible (source target : TypeId) (level : NarrowingLevel) : MemberSearch Bool :=
  match level.mode? with
  | none => pure (t.isAssignable target source)
  | some mode => do
    let plan ← selectPlan t source target mode
    pure (!plan.isFailure)

-- No conversion target is ever better than another.
def prefer (_ _ : TypeId) : Preference := .ambiguous

end Conversion

end EventScript
