import FrontEnd.Source.Load

set_option autoImplicit false

/-! # A directory held in memory

A `Directory` is a list of files, each under the path that leads to it from the working directory.
`Directory.read` follows a path part by part, as a file system does: every part but the last must
name a directory, `.` and an empty part stay, `..` goes up. Nothing is known of what lies above
the working directory, except that the directories there exist.
-/

namespace FrontEnd

/-- The files below the working directory, each with the names that lead to it. -/
structure Directory where
  files : List (List String × ByteArray)

namespace Directory

/-- What a path has led to: an entry below the working directory, named by its path, or one of
the directories above it. -/
inductive Place where
  | below (names : List String)
  | above
deriving DecidableEq, Repr

/-- A directory of files given by their paths; of two files under one path the later one counts. -/
def ofFiles (files : List (String × ByteArray)) : Directory :=
  ⟨files.reverse.map fun f =>
    ((pathParts f.1).filter (fun part => part != "" && part != "."), f.2)⟩

/-- The bytes of the file with the given names. -/
def bytes? (d : Directory) (names : List String) : Option ByteArray :=
  (d.files.find? (fun f => f.1 == names)).map (·.2)

/-- The names lead to a directory: to the working directory, or to one on the way to a file. -/
def isDirectory (d : Directory) (names : List String) : Bool :=
  names.isEmpty || d.files.any (fun f => names.isPrefixOf f.1 && names.length < f.1.length)

/-- One part of a path, followed from a place. Only a directory can be left or entered. -/
def enter (d : Directory) : Place → String → Except ReadFault Place
  | .above, part => if part = ".." || part = "." || part = "" then .ok .above else .error .notFound
  | .below names, part =>
    if d.isDirectory names then
      if part = "." || part = "" then .ok (.below names)
      else if part = ".." then
        .ok (if names.isEmpty then .above else .below names.dropLast)
      else if d.isDirectory (names ++ [part]) || (d.bytes? (names ++ [part])).isSome then
        .ok (.below (names ++ [part]))
      else .error .notFound
    else .error .notDirectory

/-- The place that the parts of a path lead to. -/
def follow (d : Directory) : Place → List String → Except ReadFault Place
  | place, [] => .ok place
  | place, part :: parts =>
    match d.enter place part with
    | .error fault => .error fault
    | .ok next => d.follow next parts

/-- The bytes of the file at a path. The empty path leads nowhere, and a path that starts with a
slash starts above the working directory. -/
def read (d : Directory) (path : String) : Except ReadFault ByteArray :=
  match pathParts path with
  | [] => .error .notFound
  | [""] => .error .notFound
  | first :: parts =>
    match d.follow (if first = "" then .above else .below []) (first :: parts) with
    | .error fault => .error fault
    | .ok .above => .error .isDirectory
    | .ok (.below names) =>
      match d.bytes? names with
      | some bytes => .ok bytes
      | none => .error .isDirectory

end Directory

end FrontEnd
