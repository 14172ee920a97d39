import EventScript.Text.Quoted

namespace EventScript

-- A part of a JSON string.
inductive JsonUnit where
  | char (c : Char)
  -- One half of a surrogate pair.
  | half (code : Nat)
deriving DecidableEq, Repr, Inhabited

namespace JsonUnit

def isHighHalf (code : Nat) : Bool := 0xD800 ≤ code && code < 0xDC00

def isLowHalf (code : Nat) : Bool := 0xDC00 ≤ code && code < 0xE000

def ofCode (code : Nat) : JsonUnit :=
  if isHighHalf code || isLowHalf code then half code else char (Char.ofNat code)

def pairChar (high low : Nat) : Char :=
  Char.ofNat (0x10000 + (high - 0xD800) * 0x400 + (low - 0xDC00))

-- Puts halves that follow each other as high and low together.
def join : List JsonUnit → List JsonUnit
  | half high :: half low :: rest =>
    if isHighHalf high && isLowHalf low then char (pairChar high low) :: join rest
    else half high :: join (half low :: rest)
  | unit :: rest => unit :: join rest
  | [] => []

def char? : JsonUnit → Option Char
  | char c => some c
  | half _ => none

end JsonUnit

-- A JSON value. Numbers stay as they are written, and members keep their order.
inductive Json where
  | null
  | bool (value : Bool)
  | number (lexeme : String)
  | string (units : List JsonUnit)
  | array (items : List Json)
  | object (members : List (List JsonUnit × Json))
deriving Repr, Inhabited

namespace Json

def units (s : String) : List JsonUnit := s.toList.map .char

-- The text of a string, unless a half stands alone in it.
def textOf? (units : List JsonUnit) : Option String := (units.mapM JsonUnit.char?).map String.ofList

def text (s : String) : Json := string (units s)

def nat (n : Nat) : Json := number (toString n)

def ofOption : Option Json → Json
  | some value => value
  | none => null

def ofFields (fields : List (String × Json)) : Json :=
  object (fields.map fun (name, value) => (units name, value))

-- Writing

def hexPair (n : Nat) : String :=
  String.ofList ((if n < 16 then ['0'] else []) ++ Text.hexDigits n)

-- How a character is written in a string: only control characters, quotes and backslashes differ.
def writeChar (c : Char) : String :=
  if c = '"' then "\\\""
  else if c = '\\' then "\\\\"
  else if c = '\n' then "\\n"
  else if c = '\r' then "\\r"
  else if c = '\t' then "\\t"
  else if c.toNat = 8 then "\\b"
  else if c.toNat = 12 then "\\f"
  else if c.toNat < 0x20 then "\\u00" ++ hexPair c.toNat
  else c.toString

def writeUnit : JsonUnit → String
  | .char c => writeChar c
  | .half code => "\\u" ++ String.ofList (Text.hexDigits code)

def writeString (units : List JsonUnit) : String := "\"" ++ String.join (units.map writeUnit) ++ "\""

def indent (depth : Nat) : String := String.ofList (List.replicate (2 * depth) ' ')

-- Lines between brackets that stand at a depth; nothing stands between without lines.
def writeBlock (depth : Nat) (opening closing : String) (lines : List String) : String :=
  if lines.isEmpty then opening ++ closing
  else opening ++ "\n" ++ ",\n".intercalate lines ++ "\n" ++ indent depth ++ closing

mutual

-- The text of a value whose first line is already indented.
def writeAt (depth : Nat) : Json → String
  | null => "null"
  | bool value => if value then "true" else "false"
  | number lexeme => lexeme
  | string units => writeString units
  | array items => writeBlock depth "[" "]" (writeItems (depth + 1) items)
  | object members => writeBlock depth "\x7b" "\x7d" (writeMembers (depth + 1) members)

def writeItems (depth : Nat) : List Json → List String
  | [] => []
  | item :: items => (indent depth ++ writeAt depth item) :: writeItems depth items

def writeMembers (depth : Nat) : List (List JsonUnit × Json) → List String
  | [] => []
  | (name, value) :: members =>
    (indent depth ++ writeString name ++ ": " ++ writeAt depth value) :: writeMembers depth members

end

def render (value : Json) : String := value.writeAt 0

end Json

end EventScript
