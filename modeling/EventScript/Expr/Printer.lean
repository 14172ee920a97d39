import EventScript.Expr
import EventScript.Real.Shortest
import EventScript.Text.Quoted

namespace EventScript

def IntSuffix.text : IntSuffix → String
  | none => ""
  | long => "L"
  | unsigned => "U"
  | unsignedLong => "UL"

def RealSuffix.text : RealSuffix → String
  | none => ""
  | float => "f"
  | double => "d"
  | decimal => "m"

def Literal.render : Literal → String
  | int value suffix => toString value ++ suffix.text
  | real value suffix => value.render ++ suffix.text
  | str text => Text.quote text
  | bool true => "true"
  | bool false => "false"
  | null => "null"

def commaSeparated (items : List String) : String := ", ".intercalate items

def TypeName.render : TypeName → String
  | mk path arguments nullable _ =>
    let arguments :=
      if arguments.isEmpty then "" else "<" ++ commaSeparated (arguments.map render) ++ ">"
    path.render ++ arguments ++ if nullable then "?" else ""

def Expr.render : Expr → String
  | literal value _ => value.render
  | name ident _ => ident.name
  | member target ident _ => target.render ++ "." ++ ident.name
  | call callee arguments _ => callee.render ++ "(" ++ commaSeparated (arguments.map render) ++ ")"
  | index target arguments _ => target.render ++ "[" ++ commaSeparated (arguments.map render) ++ "]"
  | unary op operand _ => "(" ++ op.symbol ++ operand.render ++ ")"
  | binary op left right _ => "(" ++ left.render ++ " " ++ op.symbol ++ " " ++ right.render ++ ")"
  | cast type operand _ => "((" ++ type.render ++ ") " ++ operand.render ++ ")"
  | asType operand type _ => "(" ++ operand.render ++ " as " ++ type.render ++ ")"
  | guarded checked operand _ =>
    (if checked then "checked" else "unchecked") ++ "(" ++ operand.render ++ ")"

def UsingDirective.render (directive : UsingDirective) : String :=
  match directive.nickname with
  | some nickname => "using " ++ nickname.name ++ " = " ++ directive.path.render ++ ";\n"
  | none => "using " ++ directive.path.render ++ ";\n"

-- The directives, one to a line, and the body behind them.
def Script.render (script : Script) : String :=
  String.join (script.usings.map UsingDirective.render) ++ script.body.render

end EventScript
