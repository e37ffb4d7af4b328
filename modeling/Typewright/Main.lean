import Typewright.Command

/-!
# The program

Reads the file that the arguments ask for, runs the command and writes what it says.
-/

set_option autoImplicit false

open Typewright

/-- Why the system did not read a file. -/
def readFailure : IO.Error → ReadFailure
  | .noFileOrDirectory .. => .notFound
  | .inappropriateType _ code _ => if code = 20 then .notDirectory else .isDirectory
  | e => .other (toString e)

/-- The bytes of a file. -/
def readBytes (file : String) : IO (Except ReadFailure ByteArray) := do
  try
    return .ok (← IO.FS.readBinFile file)
  catch e => return .error (readFailure e)

/-- Runs the command line `args` on the file that it names. -/
def main (args : List String) : IO UInt32 := do
  let bytes ← match Command.file? args with
    | some file => readBytes file
    | none => pure (.error .notFound)
  let outcome := Command.run args bytes
  (← IO.getStdout).putStr outcome.stdout
  (← IO.getStderr).putStr outcome.stderr
  return outcome.exit.toUInt32
