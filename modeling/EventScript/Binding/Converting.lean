import EventScript.Binding.Compiling
import EventScript.Bound

namespace EventScript.Binding

open Compiling

variable (scope : BindingScope)

-- The expression converted by a resolved conversion.
def applyConversion (e : BoundExpr) (conversion : Conversion) (descriptor : Descriptor) :
    Compiling BoundExpr := do
  if conversion.plan = .identity ∧ conversion.resultType = e.type then return e
  else if conversion.isError then
    fault scope.runtime (.cannotConvert conversion.mode.isExplicit conversion.source conversion.target) e.span
    return .failed e.span
  else
    return .node (.convert conversion descriptor (← isChecked)) conversion.resultType e.span [e]

def convertBy (e : BoundExpr) (descriptor : Descriptor) : Compiling BoundExpr := do
  match ← search (descriptor.conversion? scope.types e.type) with
  | some conversion => applyConversion scope e conversion descriptor
  | none => return e

def convert (e : BoundExpr) (target : TypeId) (mode : ConversionMode) : Compiling BoundExpr := do
  if e.isError then return e
  else convertBy scope e (← descriptor (.convert target mode))

-- Whether an expression of one type can be used as one of another.
def convertsImplicitly (source target : TypeId) : Compiling Bool :=
  search (Conversion.isPossible scope.types source target .one)

end EventScript.Binding
