import EventScript.Text.Blank

namespace EventScript.Text

-- The parts between separators; there is one part more than there are separators.
def splitChars (separator : Char) : List Char → List (List Char)
  | [] => [[]]
  | c :: rest =>
    if c = separator then [] :: splitChars separator rest
    else match splitChars separator rest with
      | [] => [[c]]
      | part :: parts => (c :: part) :: parts

def split (separator : Char) (s : String) : List String :=
  (splitChars separator s.toList).map String.ofList

-- A line without the carriage return that belongs to the line feed after it.
def dropReturn (line : String) : String :=
  if line.endsWith "\r" then String.ofList line.toList.dropLast else line

-- The lines of a text. What follows the last line feed is one only if it is not empty.
def lines (s : String) : List String :=
  let parts := split '\n' s
  parts.dropLast.map dropReturn ++ (parts.getLast?.toList.filter (· ≠ ""))

-- What stands before and behind the first separator.
def cutFirst? (separator : Char) (cs : List Char) : Option (List Char × List Char) :=
  match cs.dropWhile (· ≠ separator) with
  | [] => none
  | _ :: rest => some (cs.takeWhile (· ≠ separator), rest)

-- What stands before and behind the last separator.
def cutLast? (separator : Char) (cs : List Char) : Option (List Char × List Char) :=
  (cutFirst? separator cs.reverse).map fun (last, before) => (before.reverse, last.reverse)

end EventScript.Text
