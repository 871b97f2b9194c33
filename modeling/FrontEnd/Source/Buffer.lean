import FrontEnd.Source.Position

set_option autoImplicit false

/-! # Source buffers

A `Buffer` is the whole text of one file together with the name that diagnostics print for it.
Buffers are made by `Buffer.ofText`, which writes every line end as a single line feed, and are
read line by line through `Buffer.line?`.
-/

namespace FrontEnd

/-- Every carriage return that stands directly before a line feed is left out. -/
def normalizeNewlines : List Char → List Char
  | [] => []
  | '\r' :: '\n' :: rest => '\n' :: normalizeNewlines rest
  | c :: rest => c :: normalizeNewlines rest

/-- The line with the given index, counted from zero, without its line feed. A text has one more
line than it has line feeds. -/
def lineAt : Nat → List Char → Option (List Char)
  | 0, text => some (text.takeWhile (· != '\n'))
  | n + 1, text =>
    match text.dropWhile (· != '\n') with
    | [] => none
    | _ :: rest => lineAt n rest

/-- The text of a file and the name it is reported under. -/
structure Buffer where
  name : String
  text : String
deriving DecidableEq, Repr, Inhabited

namespace Buffer

/-- A buffer for a text held in memory, its line ends normalised. -/
def ofText (name text : String) : Buffer :=
  ⟨name, String.ofList (normalizeNewlines text.toList)⟩

/-- The characters of the buffer. -/
def chars (b : Buffer) : List Char := b.text.toList

/-- A line by its number, counted from one, without its line feed; there is no line zero. -/
def line? (b : Buffer) : Nat → Option String
  | 0 => none
  | n + 1 => (lineAt n b.chars).map String.ofList

@[simp] theorem line?_zero (b : Buffer) : b.line? 0 = none := rfl

@[simp] theorem chars_ofText (name text : String) :
    (ofText name text).chars = normalizeNewlines text.toList := by
  simp [chars, ofText]

end Buffer

end FrontEnd
