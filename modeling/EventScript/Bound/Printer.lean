import EventScript.Bound
import EventScript.Expr.Printer

namespace EventScript

-- What a node does, in words.
def BoundOp.describe (t : TypeTable) : BoundOp → String
  | literal value => "literal " ++ value.render
  | parameter name => "parameter " ++ name
  | convert conversion _ checked =>
    "convert " ++ conversion.plan.render t ++ " [" ++ conversion.mode.name ++ "]" ++ mark checked
  | unary op _ checked => "unary " ++ op.symbol ++ mark checked
  | binary op _ checked => "binary " ++ op.symbol ++ mark checked
  | property declaring name => "property " ++ t.displayName declaring ++ "." ++ name
  | staticProperty declaring name => "static-property " ++ t.displayName declaring ++ "." ++ name
  | call method => "call " ++ t.signature method
  | staticCall method => "static-call " ++ t.signature method
  | extensionCall method => "extension-call " ++ t.signature method
  | dynamic descriptor => "dynamic " ++ descriptor.key.render t
  | error => "error"
where
  mark (checked : Bool) : String := if checked then " checked" else ""

-- The lines of the listing of an expression at a depth.
def BoundExpr.lines (t : TypeTable) (depth : Nat) : BoundExpr → List String
  | node op type _ operands =>
    let indent := String.ofList (List.replicate (2 * depth) ' ')
    (indent ++ op.describe t ++ " : " ++ t.displayName type) ::
      (operands.map (lines t (depth + 1))).flatten

end EventScript
