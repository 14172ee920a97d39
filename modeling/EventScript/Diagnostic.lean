import EventScript.Span

namespace EventScript

inductive Severity where
  | error | warning | info
deriving DecidableEq, Repr, Inhabited

inductive Phase where
  | parsing | nameResolution | binding | conversion
deriving DecidableEq, Repr, Inhabited

def Severity.name : Severity → String
  | error => "Error"
  | warning => "Warning"
  | info => "Info"

def Severity.all : List Severity := [error, warning, info]

def Severity.ofName? (name : String) : Option Severity := all.find? (·.name = name)

def Severity.render : Severity → String
  | error => "ERROR"
  | warning => "WARNING"
  | info => "INFO"

def Phase.name : Phase → String
  | parsing => "Parsing"
  | nameResolution => "NameResolution"
  | binding => "Binding"
  | conversion => "Conversion"

def Phase.all : List Phase := [parsing, nameResolution, binding, conversion]

def Phase.ofName? (name : String) : Option Phase := all.find? (·.name = name)

-- The decimal digits of a code, filled up with zeros to four.
def codeDigits (code : Nat) : String :=
  let digits := toString code
  String.ofList (List.replicate (4 - digits.length) '0') ++ digits

-- A message about a span of the source.
structure Diagnostic where
  code : Nat
  message : String
  span : Span
  severity : Severity
  phase : Phase
deriving DecidableEq, Repr, Inhabited

namespace Diagnostic

def isError (d : Diagnostic) : Bool := d.severity = .error

-- The code as shown to users.
def codeName (d : Diagnostic) : String := "QS" ++ codeDigits d.code

def render (d : Diagnostic) : String :=
  s!"{d.severity.render} {d.codeName} at {d.span.render}: {d.message}"

def countErrors (ds : List Diagnostic) : Nat := ds.countP isError

end Diagnostic

-- The codes under which the compiler reports.
namespace Code

def operatorNotApplicable : Nat := 19
def cannotIndex : Nat := 21
def unaryOperatorNotApplicable : Nat := 23
def cannotConvertImplicitly : Nat := 29
def cannotConvert : Nat := 30
def nameNotFound : Nat := 103
def ambiguousReference : Nat := 104
def memberNotFound : Nat := 117
def namespaceUsedAsValue : Nat := 118
def typeUsedAsValue : Nat := 119
def ambiguousCall : Nat := 121
def notInvocable : Nat := 149
def namespaceMemberNotFound : Nat := 234
def namespaceNotFound : Nat := 246
def methodGroupAsValue : Nat := 428
def syntaxError : Nat := 1001
def noMatchingOverload : Nat := 1501

end Code

end EventScript
