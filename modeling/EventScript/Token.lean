import EventScript.Real.Binary64
import EventScript.Span

namespace EventScript

inductive IntSuffix where
  | none | long | unsigned | unsignedLong
deriving DecidableEq, Repr, Inhabited

inductive RealSuffix where
  | none | float | double | decimal
deriving DecidableEq, Repr, Inhabited

inductive Keyword where
  | usingWord | trueWord | falseWord | nullWord | asWord | checkedWord | uncheckedWord
deriving DecidableEq, Repr, Inhabited

namespace Keyword

def all : List Keyword :=
  [usingWord, trueWord, falseWord, nullWord, asWord, checkedWord, uncheckedWord]

def text : Keyword → String
  | usingWord => "using"
  | trueWord => "true"
  | falseWord => "false"
  | nullWord => "null"
  | asWord => "as"
  | checkedWord => "checked"
  | uncheckedWord => "unchecked"

def ofText? (text : String) : Option Keyword := all.find? (·.text = text)

end Keyword

inductive Symbol where
  | dot | comma | semicolon | lparen | rparen | lbracket | rbracket | question | assign
  | plus | minus | star | slash | percent | bang
  | eqEq | notEq | lt | ltEq | gt | gtEq | andAnd | orOr
deriving DecidableEq, Repr, Inhabited

def Symbol.text : Symbol → String
  | dot => "."
  | comma => ","
  | semicolon => ";"
  | lparen => "("
  | rparen => ")"
  | lbracket => "["
  | rbracket => "]"
  | question => "?"
  | assign => "="
  | plus => "+"
  | minus => "-"
  | star => "*"
  | slash => "/"
  | percent => "%"
  | bang => "!"
  | eqEq => "=="
  | notEq => "!="
  | lt => "<"
  | ltEq => "<="
  | gt => ">"
  | gtEq => ">="
  | andAnd => "&&"
  | orOr => "||"

-- What a token says, without its place.
inductive TokenKind where
  | ident (name : String)
  | int (value : Nat) (suffix : IntSuffix)
  | real (value : Binary64) (suffix : RealSuffix)
  | str (text : String)
  | keyword (word : Keyword)
  | symbol (sign : Symbol)
  | eof
deriving DecidableEq, Repr, Inhabited

-- A token and the span it was read from.
structure Token where
  kind : TokenKind
  span : Span
deriving DecidableEq, Repr, Inhabited

-- How a token is named in messages.
def TokenKind.describe : TokenKind → String
  | ident name => s!"identifier '{name}'"
  | int _ _ | real _ _ => "number"
  | str _ => "string literal"
  | keyword word => s!"'{word.text}'"
  | symbol sign => s!"'{sign.text}'"
  | eof => "end of input"

end EventScript
