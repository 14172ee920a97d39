import EventScript.Diagnostic
import EventScript.Token

namespace EventScript

inductive Expected where
  | expression
  | identifier
  | token (kind : TokenKind)
deriving DecidableEq, Repr

def Expected.describe : Expected → String
  | expression => "expression"
  | identifier => "identifier"
  | token kind => kind.describe

inductive SyntaxFault where
  | unterminatedComment
  | unterminatedString
  | malformedNumber
  | unexpectedCharacter (c : Char)
  | unexpectedToken (expected : Expected) (found : TokenKind)
  | emptyIndex
deriving DecidableEq, Repr

def SyntaxFault.message : SyntaxFault → String
  | unterminatedComment => "unterminated comment"
  | unterminatedString => "unterminated string literal"
  | malformedNumber => "malformed number"
  | unexpectedCharacter c => s!"unexpected character '{c}'"
  | unexpectedToken expected found => s!"expected {expected.describe}, found {found.describe}"
  | emptyIndex => "expected an index expression"

structure SyntaxError where
  fault : SyntaxFault
  span : Span
deriving DecidableEq, Repr

namespace SyntaxError

def message (e : SyntaxError) : String := e.fault.message

def render (e : SyntaxError) : String := s!"{e.message} at {e.span.render}"

def toDiagnostic (e : SyntaxError) : Diagnostic where
  code := Code.syntaxError
  message := e.message
  span := e.span
  severity := .error
  phase := .parsing

end SyntaxError

end EventScript
