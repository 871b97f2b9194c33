import FrontEnd.Settings
import FrontEnd.Report
import FrontEnd.Source.Load
import FrontEnd.Token.Listing
import FrontEnd.Tree.Printer

set_option autoImplicit false

/-! # The command line

The program is given the paths of some files, and flags among them. It loads all files, reads each
of them, and writes what was found; or, with the flag for it, it lists their tokens and does no
more. A `Request` is what the arguments ask for, and `Request.run` gives the `Output` of the
program, with the reading of files as a parameter.
-/

namespace FrontEnd.CommandLine

/-- What the arguments ask for. -/
structure Request where
  files : List String := []
  noColour : Bool := false
  verbose : Bool := false
  quiet : Bool := false
  tokens : Bool := false
deriving DecidableEq, Repr

/-- What a run of the program leaves behind. -/
structure Output where
  exit : Nat
  stdout : String
  stderr : String
deriving DecidableEq, Repr

/-! ## Arguments -/

namespace Request

/-- A file to read. The empty path is refused. -/
def addFile (r : Request) (path : String) : Option Request :=
  if path = "" then none else some { r with files := r.files ++ [path] }

/-- Files to read, whatever their paths look like. -/
def addFiles : Request → List String → Option Request
  | r, [] => some r
  | r, path :: rest => (r.addFile path).bind fun next => addFiles next rest

/-- A flag by its full name. No flag may be given twice. -/
def setFlag (r : Request) (name : String) : Option Request :=
  match name with
  | "no-color" => if r.noColour then none else some { r with noColour := true }
  | "verbose" => if r.verbose then none else some { r with verbose := true }
  | "quiet" => if r.quiet then none else some { r with quiet := true }
  | "tokens" => if r.tokens then none else some { r with tokens := true }
  | _ => none

/-- The full name of the flag that a letter stands for. -/
def flagOfLetter? : Char → Option String
  | 'v' => some "verbose"
  | 'q' => some "quiet"
  | _ => none

/-- Flags by their letters. -/
def setLetters : Request → List Char → Option Request
  | r, [] => some r
  | r, c :: rest =>
    ((flagOfLetter? c).bind r.setFlag).bind fun next => setLetters next rest

/-- Takes the arguments one by one. Behind two dashes alone every argument is a file; a single
dash alone is one as well. -/
def addArgs : Request → List String → Option Request
  | r, [] => some r
  | r, arg :: rest =>
    match arg.toList with
    | ['-', '-'] => r.addFiles rest
    | '-' :: '-' :: name =>
      (r.setFlag (String.ofList name)).bind fun next => addArgs next rest
    | '-' :: c :: letters => (r.setLetters (c :: letters)).bind fun next => addArgs next rest
    | _ => (r.addFile arg).bind fun next => addArgs next rest

/-- What the arguments ask for. There must be a file, and the output cannot be both verbose and
quiet. -/
def ofArgs? (args : List String) : Option Request :=
  match addArgs {} args with
  | none => none
  | some r => if r.files.isEmpty || (r.verbose && r.quiet) then none else some r

/-- The settings of the run. A variable of the environment that is set to more than the empty text
turns colours off, as the flag does. -/
def settings (r : Request) (noColourVariable : Option String) : Settings :=
  { colours := !(r.noColour || noColourVariable.getD "" != "")
    verbosity := if r.quiet then .quiet else if r.verbose then .debug else .info }

end Request

/-! ## The run -/

/-- The chain of causes of a failed load; what the system says stands there twice, in the message
and as the cause of it. -/
def loadFailure (path : String) (e : LoadError) : String :=
  "Error: failed to load " ++ path ++ ": " ++ e.message ++
    (match e with
     | .unreadable _ fault => ": " ++ fault.message
     | .notUtf8 _ => "") ++ "\n"

/-- Loads files in order, up to the first that fails. -/
def loadAll (read : String → Except ReadFault ByteArray) :
    List String → Except String (List Buffer)
  | [] => .ok []
  | path :: rest =>
    match Buffer.load read path with
    | .error e => .error (loadFailure path e)
    | .ok buffer =>
      match loadAll read rest with
      | .error e => .error e
      | .ok buffers => .ok (buffer :: buffers)

/-- The line after a file. -/
def summary (b : Buffer) (r : Report) : String :=
  "Parsed " ++ b.name ++ ": " ++ toString r.declarations.length ++ " top-level declarations, " ++
    toString r.errors ++ " errors, " ++ toString r.warnings ++ " warnings\n"

/-- What is written about one file that has been read. -/
def describe (settings : Settings) (b : Buffer) (r : Report) : String :=
  String.join ((r.diagnostics b).map (·.render settings.colours)) ++
    (if settings.shows .debug then
       String.join (r.declarations.map fun d => d.render ++ "\n")
     else "") ++
    (if settings.shows .info then summary b r else "")

/-- What is written before any file is read. -/
def announce (settings : Settings) (buffers : List Buffer) : String :=
  (if settings.shows .info then
     String.join (buffers.map fun b => "Parsing " ++ b.name ++ "...\n")
   else "") ++
    (if settings.shows .debug then String.join (buffers.map Buffer.listing) else "")

/-- Reads the files and writes what was found. The run has failed if a file has an error. -/
def check (settings : Settings) (buffers : List Buffer) : Output :=
  let reports := buffers.map fun b => (b, b.parse)
  { exit := if reports.all (·.2.isOk) then 0 else 1
    stdout := ""
    stderr :=
      announce settings buffers ++ String.join (reports.map fun p => describe settings p.1 p.2) ++
        (if settings.shows .info && !reports.any (·.2.entryPoint) then
           "Note: no entry point 'fn main' declared\n"
         else "") }

/-- The run that a request asks for. -/
def Request.run (r : Request) (noColourVariable : Option String)
    (read : String → Except ReadFault ByteArray) : Output :=
  match loadAll read r.files with
  | .error message => ⟨2, "", message⟩
  | .ok buffers =>
    if r.tokens then ⟨0, String.join (buffers.map Buffer.listing), ""⟩
    else check (r.settings noColourVariable) buffers

end FrontEnd.CommandLine
