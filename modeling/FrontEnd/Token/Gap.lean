import FrontEnd.Token.Basic

set_option autoImplicit false

/-! # Gaps between tokens

Between two tokens a text may hold blanks and comments. A line comment runs from `//` up to the
next line feed. A block comment is opened by a slash and a dash or star, closed by a dash or star
and a slash, and may hold further block comments; the two styles mix freely. `gap` says how many
characters the gap at the start of a text takes, or that a block comment in it is never closed.
-/

namespace FrontEnd

/-- Where the gap at the start of a text ends. -/
inductive Gap where
  /-- The gap takes this many characters. -/
  | closed (length : Nat)
  /-- After this many characters a block comment starts that is not closed. -/
  | unclosed (start : Nat)
deriving DecidableEq, Repr

namespace Gap

/-- What the characters of a gap belong to while it is read. -/
inductive Mode where
  /-- No comment: blanks, or the start of a comment or a token. -/
  | blank
  /-- A line comment. -/
  | line
  /-- A block comment that started after `start` characters, within `depth` further ones. -/
  | block (depth : Nat) (start : Nat)
deriving DecidableEq, Repr

/-- The characters that separate tokens. -/
def isBlank (c : Char) : Bool := c == ' ' || c == '\t' || c == '\r' || c == '\n'

/-- The characters that make a slash before them open, and one after them close, a block
comment. -/
def isCommentSign (c : Char) : Bool := c == '-' || c == '*'

/-- Reads on in a gap of which `n` characters have been read. -/
def scan : Mode → Nat → List Char → Gap
  | .blank, n, [] => .closed n
  | .blank, n, [c] => if isBlank c then .closed (n + 1) else .closed n
  | .blank, n, c :: d :: rest =>
    if isBlank c then scan .blank (n + 1) (d :: rest)
    else if c = '/' then
      if d = '/' then scan .line (n + 2) rest
      else if isCommentSign d then scan (.block 0 n) (n + 2) rest
      else .closed n
    else .closed n
  | .line, n, [] => .closed n
  | .line, n, c :: rest =>
    if c = '\n' then scan .blank (n + 1) rest else scan .line (n + 1) rest
  | .block _ start, _, [] => .unclosed start
  | .block _ start, _, [_] => .unclosed start
  | .block depth start, n, c :: d :: rest =>
    if c = '/' ∧ isCommentSign d then scan (.block (depth + 1) start) (n + 2) rest
    else if isCommentSign c ∧ d = '/' then
      match depth with
      | 0 => scan .blank (n + 2) rest
      | outer + 1 => scan (.block outer start) (n + 2) rest
    else scan (.block depth start) (n + 1) (d :: rest)

end Gap

/-- The gap at the start of a text. -/
def gap (text : List Char) : Gap := Gap.scan .blank 0 text

end FrontEnd
