import FrontEnd.Source.Buffer

set_option autoImplicit false

/-! # Loading a buffer

Reading a file either yields its bytes or a `ReadFault`. `Buffer.load` turns the bytes into a
buffer: they must be UTF-8, and the buffer is named by the last part of the path alone. What goes
wrong is a `LoadError`, whose wording is `LoadError.message`.
-/

namespace FrontEnd

/-- Why the bytes of a file could not be had. -/
inductive ReadFault where
  | notFound
  | isDirectory
  | notDirectory
  | other (text : String) (code : Nat)
deriving DecidableEq, Repr

/-- The system's text for a fault, with its number. -/
def ReadFault.message : ReadFault → String
  | .notFound => "No such file or directory (os error 2)"
  | .isDirectory => "Is a directory (os error 21)"
  | .notDirectory => "Not a directory (os error 20)"
  | .other text code => text ++ " (os error " ++ toString code ++ ")"

/-- Why no buffer could be made from a file. -/
inductive LoadError where
  | unreadable (path : String) (fault : ReadFault)
  | notUtf8 (path : String)
deriving DecidableEq, Repr

/-- What the user is told. -/
def LoadError.message : LoadError → String
  | .unreadable path fault =>
    "could not open '" ++ path ++ "' for reading: " ++ fault.message
  | .notUtf8 path => "'" ++ path ++ "' is not valid UTF-8"

/-- The pieces of a text between the occurrences of a separator, at least one. -/
def splitAtEach (separator : Char) : List Char → List (List Char)
  | [] => [[]]
  | c :: rest =>
    if c = separator then [] :: splitAtEach separator rest
    else
      match splitAtEach separator rest with
      | [] => [[c]]
      | piece :: pieces => (c :: piece) :: pieces

/-- The parts of a path between its slashes. -/
def pathParts (path : String) : List String :=
  (splitAtEach '/' path.toList).map String.ofList

/-- The last part of a path that is not empty and not `.`. A path without such a part, or one
that ends in `..`, is its own name. -/
def fileName (path : String) : String :=
  match ((pathParts path).filter (fun part => part != "" && part != ".")).getLast? with
  | none => path
  | some part => if part = ".." then path else part

/-- The buffer of the file at `path`, as `read` gives its bytes. -/
def Buffer.load (read : String → Except ReadFault ByteArray) (path : String) :
    Except LoadError Buffer :=
  match read path with
  | .error fault => .error (.unreadable path fault)
  | .ok bytes =>
    match String.fromUTF8? bytes with
    | none => .error (.notUtf8 path)
    | some text => .ok (Buffer.ofText (fileName path) text)

end FrontEnd
