import EventScript.Operator
import EventScript.Token

namespace EventScript

-- A name where it stands in the source.
structure Ident where
  name : String
  span : Span
deriving DecidableEq, Repr, Inhabited

-- Names joined by points, at least one.
structure DottedName where
  first : Ident
  rest : List Ident
deriving DecidableEq, Repr, Inhabited

namespace DottedName

def idents (path : DottedName) : List Ident := path.first :: path.rest

def last (path : DottedName) : Ident := path.rest.getLast?.getD path.first

-- The names before the last one.
def qualifiers (path : DottedName) : List Ident := path.idents.dropLast

def render (path : DottedName) : String := ".".intercalate (path.idents.map (·.name))

def span (path : DottedName) : Span := path.first.span.hull path.last.span

end DottedName

inductive Literal where
  | int (value : Nat) (suffix : IntSuffix)
  | real (value : Binary64) (suffix : RealSuffix)
  | str (text : String)
  | bool (value : Bool)
  | null
deriving DecidableEq, Repr, Inhabited

-- A type as it is written in a cast or behind `as`.
inductive TypeName where
  | mk (path : DottedName) (arguments : List TypeName) (nullable : Bool) (span : Span)
deriving Repr, Inhabited

namespace TypeName

def path : TypeName → DottedName
  | mk path _ _ _ => path

def arguments : TypeName → List TypeName
  | mk _ arguments _ _ => arguments

def nullable : TypeName → Bool
  | mk _ _ nullable _ => nullable

def span : TypeName → Span
  | mk _ _ _ span => span

end TypeName

-- Expressions; each knows the span it was read from, parentheses around it included.
inductive Expr where
  | literal (value : Literal) (span : Span)
  | name (ident : Ident) (span : Span)
  | member (target : Expr) (name : Ident) (span : Span)
  | call (callee : Expr) (arguments : List Expr) (span : Span)
  | index (target : Expr) (arguments : List Expr) (span : Span)
  | unary (op : UnaryOperator) (operand : Expr) (span : Span)
  | binary (op : BinaryOperator) (left right : Expr) (span : Span)
  -- `(T) operand`
  | cast (type : TypeName) (operand : Expr) (span : Span)
  -- `operand as T`
  | asType (operand : Expr) (type : TypeName) (span : Span)
  -- `checked(operand)` or `unchecked(operand)`
  | guarded (checked : Bool) (operand : Expr) (span : Span)
deriving Repr, Inhabited

namespace Expr

def span : Expr → Span
  | literal _ span | name _ span | member _ _ span | call _ _ span | index _ _ span
  | unary _ _ span | binary _ _ _ span | cast _ _ span | asType _ _ span | guarded _ _ span => span

-- The same expression read from another span.
def withSpan (span : Span) : Expr → Expr
  | literal value _ => literal value span
  | name ident _ => name ident span
  | member target ident _ => member target ident span
  | call callee arguments _ => call callee arguments span
  | index target arguments _ => index target arguments span
  | unary op operand _ => unary op operand span
  | binary op left right _ => binary op left right span
  | cast type operand _ => cast type operand span
  | asType operand type _ => asType operand type span
  | guarded checked operand _ => guarded checked operand span

@[simp] theorem span_withSpan (span : Span) (e : Expr) : (e.withSpan span).span = span := by
  cases e <;> rfl

end Expr

-- A `using` directive: imports a namespace, or gives a namespace or type another name.
structure UsingDirective where
  -- The other name, if the directive gives one.
  nickname : Option Ident
  path : DottedName
  span : Span
deriving DecidableEq, Repr, Inhabited

structure Script where
  usings : List UsingDirective
  body : Expr
deriving Repr, Inhabited

end EventScript
