namespace EventScript

-- Why a file gives no text.
inductive ReadError where
  | notFound
  | accessDenied
  | notDirectory
  | isDirectory
  | nameTooLong
  | invalidText
  | other (details : String)
deriving DecidableEq, Repr

namespace ReadError

def message : ReadError → String
  | notFound => "No such file or directory (os error 2)"
  | accessDenied => "Permission denied (os error 13)"
  | notDirectory => "Not a directory (os error 20)"
  | isDirectory => "Is a directory (os error 21)"
  | nameTooLong => "File name too long (os error 36)"
  | invalidText => "stream did not contain valid UTF-8"
  | other details => details

-- The text that the bytes of a file encode.
def decode (bytes : ByteArray) : Except ReadError String :=
  match String.fromUTF8? bytes with
  | some text => .ok text
  | none => .error .invalidText

end ReadError

inductive InputError where
  | unreadable (path : String) (e : ReadError)
  | invalidOptions (path : String)
  | unknownType (name : String)
deriving DecidableEq, Repr

def InputError.message : InputError → String
  | unreadable path e => s!"cannot read '{path}': {e.message}"
  | invalidOptions path => s!"invalid options file '{path}'"
  | unknownType name => s!"unknown type '{name}'"

end EventScript
