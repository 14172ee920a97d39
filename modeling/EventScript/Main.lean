import EventScript.CommandLine

namespace EventScript.CommandLine

-- Why the system gave no file.
def readErrorOf : IO.Error → ReadError
  | .noFileOrDirectory .. | .noSuchThing .. => .notFound
  | .permissionDenied .. => .accessDenied
  | .inappropriateType _ 20 _ => .notDirectory
  | .inappropriateType _ 21 _ => .isDirectory
  | .invalidArgument _ 36 _ => .nameTooLong
  | e => .other (toString e)

def readFile (path : String) : IO (Except ReadError ByteArray) := do
  try return .ok (← IO.FS.readBinFile path)
  catch e => return .error (readErrorOf e)

end EventScript.CommandLine

open EventScript

def main (arguments : List String) : IO UInt32 := do
  let outcome ← CommandLine.run CommandLine.readFile arguments
  (← IO.getStdout).putStr outcome.stdout
  (← IO.getStderr).putStr outcome.stderr
  return outcome.exitCode.toUInt32
