import FrontEnd.CommandLine

set_option autoImplicit false

/-! # The program

Reads the files that the arguments name, runs the request on their bytes, and writes the output.
-/

open FrontEnd FrontEnd.CommandLine

/-- How the program is called. -/
def usage : String := "usage: [--no-color] [-v|--verbose] [-q|--quiet] [--tokens] FILE...\n"

/-- The number of an error. The system hands some of them on negated. -/
def errorNumber (code : UInt32) : Nat := code.toInt32.toInt.natAbs

/-- The fault behind an error of the system. -/
def faultOf : IO.Error → ReadFault
  | .noFileOrDirectory .. => .notFound
  | .inappropriateType _ code text =>
    match errorNumber code with
    | 20 => .notDirectory
    | 21 => .isDirectory
    | number => .other text number
  | .permissionDenied .. => .other "Permission denied" 13
  | .otherError code text => .other text (errorNumber code)
  | e => .other (toString e) 0

/-- The bytes of a file, or why they could not be had. -/
def readBytes (path : String) : IO (Except ReadFault ByteArray) := do
  try
    return .ok (← IO.FS.readBinFile path)
  catch e =>
    return .error (faultOf e)

/-- Runs the program. -/
def main (args : List String) : IO UInt32 := do
  match Request.ofArgs? args with
  | none =>
    (← IO.getStderr).putStr usage
    return 2
  | some request =>
    let contents ← request.files.mapM fun path => return (path, ← readBytes path)
    let read := fun path => (contents.lookup path).getD (.error .notFound)
    let output := request.run (← IO.getEnv "NO_COLOR") read
    (← IO.getStdout).putStr output.stdout
    (← IO.getStderr).putStr output.stderr
    return output.exit.toUInt32
