import EventScript.Binding.Converting

namespace EventScript.Binding

open Compiling

variable (scope : BindingScope)

-- The numeric kind of a type, or of the type inside a wrapper.
def numericOperand? (t : TypeTable) (type : TypeId) : Option NumericKind :=
  match t.numericKind? type with
  | some kind => some kind
  | none => (t.extensibleUnderlying? type).bind t.numericKind?

-- The kind that a sign in front of a number results in; the widest unsigned kind has no negation.
def signedResult? (op : UnaryOperator) (kind : NumericKind) : Option NumericKind :=
  match op, kind.promoted with
  | .negate, .uint64 => none
  | .negate, .uint32 => some .int64
  | _, promoted => some promoted

-- The type that the operand of a unary operator is brought to, which is that of the result.
def unaryType (op : UnaryOperator) (operand : TypeId) : Compiling (Option TypeId) :=
  match op with
  | .not => do
    return if ← convertsImplicitly scope operand .boolean then some TypeId.boolean else none
  | .negate | .plus =>
    pure (((numericOperand? scope.types operand).bind (signedResult? op)).map TypeId.numeric)

-- What a binary operator makes of its operands.
structure BinarySignature where
  left : TypeId
  right : TypeId
  result : TypeId
deriving DecidableEq, Repr

-- Whether a value of one type can be compared for identity with one of another.
def isComparable (t : TypeTable) (source target : TypeId) : Bool :=
  source = target ||
    (source = .null && (t.isReferenceType target || (t.nullableUnderlying? target).isSome)) ||
    (t.isReferenceType target && t.isAssignable target source)

-- Equality of truth values, references and nullables: both operands get one of the two types.
def equality? (t : TypeTable) (left right : TypeId) : Option BinarySignature :=
  if left = .boolean ∧ right = .boolean then some ⟨.boolean, .boolean, .boolean⟩
  else if isComparable t right left then some ⟨left, left, .boolean⟩
  else if isComparable t left right then some ⟨right, right, .boolean⟩
  else none

-- Text is joined with anything, which is then taken as an object.
def concatenation (left right : TypeId) : BinarySignature :=
  let side (type : TypeId) : TypeId := if type = .string then type else .object
  ⟨side left, side right, .string⟩

-- Numbers are brought to their narrowest common kind.
def numericSignature? (op : BinaryOperator) (left right : NumericKind) : Option BinarySignature :=
  (left.common? right).map fun kind =>
    let type := TypeId.numeric kind
    ⟨type, type, if op.isArithmetic then type else .boolean⟩

-- The signature of a binary operator, if it applies. Objects are left to the run time.
def binarySignature (op : BinaryOperator) (left right : TypeId) :
    Compiling (Option BinarySignature) := do
  if left = .object ∨ right = .object then return some ⟨left, right, .object⟩
  else if op.isLogical then
    if ← convertsImplicitly scope left .boolean then
      if ← convertsImplicitly scope right .boolean then
        return some ⟨.boolean, .boolean, .boolean⟩
    return none
  else if op = .add ∧ (left = .string ∨ right = .string) then
    return some (concatenation left right)
  else
    match numericOperand? scope.types left, numericOperand? scope.types right with
    | some leftKind, some rightKind => return numericSignature? op leftKind rightKind
    | _, _ => return if op.isEquality then equality? scope.types left right else none

def bindUnary (op : UnaryOperator) (operand : BoundExpr) (span : Span) : Compiling BoundExpr := do
  if operand.isError then return .failed span
  else
    let descriptor ← descriptor (.unary op)
    let checked ← isChecked
    if operand.type = .object then
      return .node (.unary op descriptor checked) .object span [operand]
    else
      match ← unaryType scope op operand.type with
      | some type =>
        let converted ← convert scope operand type .implicitCast
        return .node (.unary op descriptor checked) type span [converted]
      | none =>
        fault scope.runtime (.unaryNotApplicable op operand.type) span
        return .failed span

def bindBinary (op : BinaryOperator) (left right : BoundExpr) (span : Span) :
    Compiling BoundExpr := do
  if left.isError || right.isError then return .failed span
  else
    match ← binarySignature scope op left.type right.type with
    | some signature =>
      let left ← convert scope left signature.left .implicitCast
      let right ← convert scope right signature.right .implicitCast
      let descriptor ← descriptor (.binary op)
      return .node (.binary op descriptor (← isChecked)) signature.result span [left, right]
    | none =>
      fault scope.runtime (.operatorNotApplicable op left.type right.type) span
      return .failed span

end EventScript.Binding
