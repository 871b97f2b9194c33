import FrontEnd.Token.Gap
import FrontEnd.Token.Scan

set_option autoImplicit false

/-! # The tokens of a text

A `Cursor` is what is left of a text and the place where it starts. `Cursor.next` reads one token,
after the gap before it; at the end of the text it gives the end-of-file token again and again.
A `Stream` is everything that can be read from a cursor: the tokens up to the end of the text, and
the end-of-file token.
-/

namespace FrontEnd

/-- What is left of a text, and the place where it starts. -/
structure Cursor where
  rest : List Char
  position : Position
deriving DecidableEq, Repr

namespace Cursor

/-- The start of a text. -/
def ofText (text : List Char) : Cursor := ⟨text, Position.start⟩

/-- The cursor behind the next `n` characters. -/
def skip (c : Cursor) (n : Nat) : Cursor := ⟨c.rest.drop n, c.position.after (c.rest.take n)⟩

/-- The token that a scan has found at a cursor. -/
def token (c : Cursor) (s : Scan) : Token :=
  match s.outcome with
  | .ok kind => ⟨kind, String.ofList (c.rest.take s.length), c.position⟩
  | .error fault => .invalid fault c.position

/-- The next token and the cursor behind it. A block comment that is not closed is faulty text up
to the end of the text. -/
def next (c : Cursor) : Token × Cursor :=
  match gap c.rest with
  | .unclosed start =>
    let opener := c.skip start
    (.invalid .unterminatedComment opener.position, opener.skip opener.rest.length)
  | .closed n =>
    let here := c.skip n
    match here.rest with
    | [] => (.endOfFile here.position, here)
    | first :: rest =>
      let found := scan first rest
      (here.token found, here.skip found.length)

/-- The cursor behind the next `n` tokens. -/
def skipTokens : Nat → Cursor → Cursor
  | 0, c => c
  | n + 1, c => skipTokens n c.next.2

/-- The next `n` tokens, the end-of-file token repeated as often as needed. -/
def take : Nat → Cursor → List Token
  | 0, _ => []
  | n + 1, c => c.next.1 :: take n c.next.2

end Cursor

/-- The tokens of a text, and the end-of-file token behind them. -/
structure Stream where
  tokens : List Token
  finish : Token
deriving DecidableEq, Repr

namespace Stream

/-- All tokens, the end-of-file token last. -/
def all (s : Stream) : List Token := s.tokens ++ [s.finish]

/-- A stream with one more token in front. -/
def cons (t : Token) (s : Stream) : Stream := ⟨t :: s.tokens, s.finish⟩

/-- The tokens from a cursor on, at most `fuel` of them. -/
def upTo : Nat → Cursor → Stream
  | 0, c => ⟨[], .endOfFile c.position⟩
  | fuel + 1, c =>
    match c.next with
    | (t, behind) => if t.kind = .endOfFile then ⟨[], t⟩ else cons t (upTo fuel behind)

/-- The tokens from a cursor on. Every token takes a character, so there are no more of them than
characters. -/
def ofCursor (c : Cursor) : Stream := upTo (c.rest.length + 1) c

/-- The tokens of a text. -/
def ofText (text : List Char) : Stream := ofCursor (.ofText text)

end Stream

end FrontEnd
