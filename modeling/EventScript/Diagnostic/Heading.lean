import EventScript.Diagnostic

namespace EventScript

inductive Colour where
  | red | yellow | magenta | cyan
deriving DecidableEq, Repr, Inhabited

def Colour.name : Colour → String
  | red => "Red"
  | yellow => "Yellow"
  | magenta => "Magenta"
  | cyan => "Cyan"

def Phase.colour : Phase → Colour
  | parsing => .red
  | nameResolution => .yellow
  | binding => .magenta
  | conversion => .cyan

-- The word that stands before the message; an information is shown as advice.
def Severity.heading : Severity → String
  | error => "Error"
  | warning => "Warning"
  | info => "Advice"

-- The span made at least one long, so that there is something to underline.
def Span.widened (s : Span) : Span := ⟨s.start, max s.stop (s.start + 1)⟩

def Diagnostic.heading (d : Diagnostic) : String :=
  s!"[{d.codeName}] {d.severity.heading}: {d.message}"

namespace Text

-- Characters that end a line; a carriage return and the line feed after it end it together.
def endsLine (c : Char) : Bool :=
  let n := c.toNat
  (0x0A ≤ n && n ≤ 0x0D) || n == 0x85 || n == 0x2028 || n == 0x2029

-- A place in a text: line and column, both counted from one in characters.
structure Place where
  line : Nat
  column : Nat
deriving DecidableEq, Repr

end Text

-- What draws diagnostics on a terminal: where it shows a report about a span of a source, if it shows
-- it anywhere. What the numbers of the span count is left to the renderer.
structure Renderer where
  place? : String → Span → Option Text.Place

namespace Renderer

-- The place reached from `place` after `count` characters. The end of a text that ends with a line
-- break is still on the line before the break.
def advance (place : Text.Place) : Nat → List Char → Text.Place
  | 0, _ => place
  | _, [] => place
  | count + 1, c :: rest =>
    match rest with
    | [] => advance ⟨place.line, place.column + 1⟩ count []
    | next :: _ =>
      if Text.endsLine c && !(c == '\r' && next == '\n') then
        advance ⟨place.line + 1, 1⟩ count rest
      else advance ⟨place.line, place.column + 1⟩ count rest

-- A renderer that counts characters. A report that reaches beyond the end of the source has no place;
-- the end itself still belongs to it.
def byCharacters : Renderer where
  place? source span :=
    if span.stop - 1 ≤ source.length then some (advance ⟨1, 1⟩ span.start source.toList) else none

end Renderer

-- Where the diagnostic points to in the source. The renderer is given the span as it is, in bytes.
def Diagnostic.place? (d : Diagnostic) (source : String)
    (renderer : Renderer := .byCharacters) : Option Text.Place :=
  renderer.place? source d.span.widened

end EventScript
