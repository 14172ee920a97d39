import EventScript.Input
import EventScript.Text.Split

namespace EventScript

-- Files, each under the names that lead to it from the root, and the names of a directory.
structure FileTree where
  files : List (List String × ByteArray) := []
  current : List String := []

namespace FileTree

inductive Node where
  | directory
  | file (bytes : ByteArray)

-- What stands under the names. The directories are those on the way to a file or to the current
-- directory, and that directory itself.
def node? (t : FileTree) (names : List String) : Option Node :=
  match t.files.find? (·.1 == names) with
  | some (_, bytes) => some (.file bytes)
  | none =>
    if names.isPrefixOf t.current || t.files.any (names.isPrefixOf ·.1) then some .directory
    else none

-- Paths

-- No name is longer, in bytes.
def maxNameLength : Nat := 255

-- No path is longer, in bytes.
def maxPathLength : Nat := 4095

def start (t : FileTree) (path : String) : List String :=
  if path.startsWith "/" then [] else t.current

-- One step of a path. Only a directory has a next step, even one that stays there.
def step (t : FileTree) (place : List String) (name : String) : Except ReadError (List String) :=
  match t.node? place with
  | none => .error .notFound
  | some (.file _) => .error .notDirectory
  | some .directory =>
    if name = "" ∨ name = "." then .ok place
    else if name = ".." then .ok place.dropLast
    else if maxNameLength < name.utf8ByteSize then .error .nameTooLong
    else if (t.node? (place ++ [name])).isSome then .ok (place ++ [name])
    else .error .notFound

def resolve (t : FileTree) (path : String) : Except ReadError (List String) :=
  if path = "" then .error .notFound
  else if maxPathLength < path.utf8ByteSize then .error .nameTooLong
  else (Text.split '/' path).foldlM t.step (t.start path)

def read (t : FileTree) (path : String) : Except ReadError ByteArray := do
  match t.node? (← t.resolve path) with
  | some (.file bytes) => .ok bytes
  | some .directory => .error .isDirectory
  | none => .error .notFound

-- Adds a file, with the directories on the way to it.
def insert (t : FileTree) (path : String) (bytes : ByteArray) : FileTree :=
  let names := (Text.split '/' path).filter fun name => name ≠ "" ∧ name ≠ "."
  { t with files := (t.start path ++ names, bytes) :: t.files }

end FileTree

end EventScript
