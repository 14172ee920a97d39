namespace EventScript

inductive BinaryOperator where
  | add | subtract | multiply | divide | modulo
  | equal | notEqual
  | lessThan | lessThanOrEqual | greaterThan | greaterThanOrEqual
  | andAlso | orElse
deriving DecidableEq, Repr, Inhabited

inductive UnaryOperator where
  | negate | plus | not
deriving DecidableEq, Repr, Inhabited

namespace BinaryOperator

def all : List BinaryOperator :=
  [add, subtract, multiply, divide, modulo, equal, notEqual, lessThan, lessThanOrEqual,
    greaterThan, greaterThanOrEqual, andAlso, orElse]

def symbol : BinaryOperator → String
  | add => "+"
  | subtract => "-"
  | multiply => "*"
  | divide => "/"
  | modulo => "%"
  | equal => "=="
  | notEqual => "!="
  | lessThan => "<"
  | lessThanOrEqual => "<="
  | greaterThan => ">"
  | greaterThanOrEqual => ">="
  | andAlso => "&&"
  | orElse => "||"

def name : BinaryOperator → String
  | add => "Add"
  | subtract => "Subtract"
  | multiply => "Multiply"
  | divide => "Divide"
  | modulo => "Modulo"
  | equal => "Equal"
  | notEqual => "NotEqual"
  | lessThan => "LessThan"
  | lessThanOrEqual => "LessThanOrEqual"
  | greaterThan => "GreaterThan"
  | greaterThanOrEqual => "GreaterThanOrEqual"
  | andAlso => "AndAlso"
  | orElse => "OrElse"

def isArithmetic : BinaryOperator → Bool
  | add | subtract | multiply | divide | modulo => true
  | _ => false

def isEquality : BinaryOperator → Bool
  | equal | notEqual => true
  | _ => false

def isRelational : BinaryOperator → Bool
  | lessThan | lessThanOrEqual | greaterThan | greaterThanOrEqual => true
  | _ => false

def isLogical : BinaryOperator → Bool
  | andAlso | orElse => true
  | _ => false

-- How tightly the operator binds; a higher number binds tighter.
def precedence : BinaryOperator → Nat
  | orElse => 1
  | andAlso => 2
  | equal | notEqual => 3
  | lessThan | lessThanOrEqual | greaterThan | greaterThanOrEqual => 4
  | add | subtract => 5
  | multiply | divide | modulo => 6

def ofSymbol? (symbol : String) : Option BinaryOperator := all.find? (·.symbol = symbol)

end BinaryOperator

namespace UnaryOperator

def all : List UnaryOperator := [negate, plus, not]

def symbol : UnaryOperator → String
  | negate => "-"
  | plus => "+"
  | not => "!"

def name : UnaryOperator → String
  | negate => "Negate"
  | plus => "Plus"
  | not => "Not"

def ofSymbol? (symbol : String) : Option UnaryOperator := all.find? (·.symbol = symbol)

end UnaryOperator

end EventScript
