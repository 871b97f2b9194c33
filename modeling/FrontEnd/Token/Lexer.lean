import FrontEnd.Token.Stream

set_option autoImplicit false

/-! # Reading tokens byte by byte

A text is stored as the bytes of its characters in UTF-8, and a `Lexer` reads these bytes one after
the other. All signs of the language are ASCII characters, of one byte each, and no byte of any other
character equals one of them. So it is enough to look at one byte, or at two, to tell tokens apart;
a byte is taken for the character of the same number, which is no sign unless it is an ASCII
character.

There are two places where the characters matter. Columns count characters, so a byte that goes on
with a character (`isContinuation`) leaves the column as it is. And the text of a token is cut out of
the bytes, which is not possible in the middle of a character: such a cut gives no text
(`Lexer.slice?`), and the lexer then gives no token.

The lexer never makes such a cut, and it reads the tokens that `Cursor.next` reads out of the
characters (`Lexer.tokens?_eq`).
-/

namespace FrontEnd

/-- A place in the bytes of a text. -/
structure Lexer where
  bytes : ByteArray
  /-- How many bytes have been read. -/
  current : Nat
  line : Nat
  /-- How many characters have been read on this line. -/
  column : Nat

/-- The byte goes on with a character that another byte has begun. -/
def isContinuation (b : UInt8) : Bool := b &&& 0xC0 == 0x80

namespace Lexer

/-- The start of a text. -/
def ofText (text : String) : Lexer := ⟨text.toUTF8, 0, 1, 0⟩

/-- The place of the character that is read next. -/
def position (l : Lexer) : Position := ⟨l.line, l.column + 1⟩

/-- The number of bytes that have not been read. -/
def left (l : Lexer) : Nat := l.bytes.size - l.current

/-! ## Single bytes -/

/-- The next byte. -/
def peek? (l : Lexer) : Option UInt8 := l.bytes[l.current]?

/-- The byte behind the next one. -/
def peekNext? (l : Lexer) : Option UInt8 := l.bytes[l.current + 1]?

/-- The next byte is a character of the given kind. -/
def sees (p : Char → Bool) (l : Lexer) : Bool := l.peek?.any fun b => p (Char.ofUInt8 b)

/-- The byte behind the next one is a character of the given kind. -/
def seesNext (p : Char → Bool) (l : Lexer) : Bool := l.peekNext?.any fun b => p (Char.ofUInt8 b)

/-- Reads one byte. A line feed starts a new line, and any other byte that starts a character adds
one to the column. -/
def advance (l : Lexer) : Lexer :=
  match l.peek? with
  | none => l
  | some b =>
    if b = '\n'.toUInt8 then { l with current := l.current + 1, line := l.line + 1, column := 0 }
    else if isContinuation b then { l with current := l.current + 1 }
    else { l with current := l.current + 1, column := l.column + 1 }

theorem left_advance_le (l : Lexer) : l.advance.left ≤ l.left := by
  unfold advance left
  split
  · exact Nat.le_refl _
  · split
    · exact Nat.sub_le_sub_left (Nat.le_succ _) _
    · split <;> exact Nat.sub_le_sub_left (Nat.le_succ _) _

theorem left_advance_lt {l : Lexer} (h : l.peek?.isSome) : l.advance.left < l.left := by
  obtain ⟨b, hb⟩ := Option.isSome_iff_exists.mp h
  have hlt : l.current < l.bytes.size := (getElem?_eq_some_iff.mp hb).1
  unfold advance left
  rw [hb]
  dsimp only
  split
  · exact Nat.sub_lt_sub_left hlt (Nat.lt_succ_self _)
  · split <;> exact Nat.sub_lt_sub_left hlt (Nat.lt_succ_self _)

theorem isSome_peek? {p : Char → Bool} {l : Lexer} (h : l.sees p) : l.peek?.isSome := by
  unfold sees at h
  cases hpeek : l.peek? with
  | none => rw [hpeek] at h; cases h
  | some b => rfl

/-! ## Runs of bytes -/

/-- Reads bytes as long as they have a property. -/
def advanceWhile (p : UInt8 → Bool) (l : Lexer) : Lexer :=
  if _h : l.peek?.any p then advanceWhile p l.advance else l
termination_by l.left
decreasing_by
  refine left_advance_lt ?_
  cases hpeek : l.peek? with
  | none => rw [hpeek] at _h; cases _h
  | some b => rfl

/-- Reads digits and underscores, and counts the digits. -/
def digitRun (isDigit : Char → Bool) (l : Lexer) : Nat × Lexer :=
  if _h : l.sees isDigit then
    match digitRun isDigit l.advance with
    | (digits, behind) => (digits + 1, behind)
  else if _h' : l.sees (· == '_') then digitRun isDigit l.advance
  else (0, l)
termination_by l.left
decreasing_by
  · exact left_advance_lt (isSome_peek? _h)
  · exact left_advance_lt (isSome_peek? _h')

/-- Reads some characters if all of them follow. -/
def eatAll? : List Char → Lexer → Option Lexer
  | [], l => some l
  | c :: expected, l => if l.sees (· == c) then eatAll? expected l.advance else none

/-! ## Gaps -/

/-- Reads on in block comments, of which `level` are open, until all of them are closed. The text may
end before that. -/
def closeComment (level : Nat) (l : Lexer) : Bool × Lexer :=
  match level with
  | 0 => (true, l)
  | outer + 1 =>
    if _h : l.peek?.isSome then
      if l.sees (· == '/') && l.seesNext Gap.isCommentSign then
        closeComment (outer + 2) l.advance.advance
      else if l.sees Gap.isCommentSign && l.seesNext (· == '/') then
        closeComment outer l.advance.advance
      else closeComment (outer + 1) l.advance
    else (false, l)
termination_by l.left
decreasing_by
  · exact Nat.lt_of_le_of_lt (left_advance_le _) (left_advance_lt _h)
  · exact Nat.lt_of_le_of_lt (left_advance_le _) (left_advance_lt _h)
  · exact left_advance_lt _h

theorem left_advanceWhile_le (p : UInt8 → Bool) (l : Lexer) : (l.advanceWhile p).left ≤ l.left := by
  fun_induction advanceWhile p l with
  | case1 l h ih => exact Nat.le_trans ih (left_advance_le l)
  | case2 l h => exact Nat.le_refl _

theorem left_closeComment_le (level : Nat) (l : Lexer) : (l.closeComment level).2.left ≤ l.left := by
  fun_induction closeComment level l with
  | case1 l => exact Nat.le_refl _
  | case2 l outer h hopen ih =>
    exact Nat.le_trans ih (Nat.le_trans (left_advance_le _) (left_advance_le l))
  | case3 l outer h hopen hclose ih =>
    exact Nat.le_trans ih (Nat.le_trans (left_advance_le _) (left_advance_le l))
  | case4 l outer h hopen hclose ih => exact Nat.le_trans ih (left_advance_le l)
  | case5 l outer h => exact Nat.le_refl _

/-- Skips blanks and comments. If a block comment is not closed, its start and the end of the text
are given instead. -/
def skipTrivia (l : Lexer) : Except (Lexer × Lexer) Lexer :=
  if _h : l.sees Gap.isBlank then skipTrivia l.advance
  else if _h' : l.sees (· == '/') then
    if l.seesNext (· == '/') then skipTrivia (l.advance.advanceWhile (Char.ofUInt8 · != '\n'))
    else if l.seesNext Gap.isCommentSign then
      match _hclose : l.advance.advance.closeComment 1 with
      | (true, behind) => skipTrivia behind
      | (false, behind) => .error (l, behind)
    else .ok l
  else .ok l
termination_by l.left
decreasing_by
  · exact left_advance_lt (isSome_peek? _h)
  · exact Nat.lt_of_le_of_lt (left_advanceWhile_le _ _) (left_advance_lt (isSome_peek? _h'))
  · have hle := left_closeComment_le 1 l.advance.advance
    rw [_hclose] at hle
    exact Nat.lt_of_le_of_lt (Nat.le_trans hle (left_advance_le _))
      (left_advance_lt (isSome_peek? _h'))

/-! ## Tokens

What is found of a token is its kind or what is wrong with it, and the place behind it. -/

/-- The text between two places. There is none if a place is not between two characters. -/
def slice? (start behind : Lexer) : Option String :=
  if start.current ≤ behind.current ∧ behind.current ≤ start.bytes.size then
    String.fromUTF8? (start.bytes.extract start.current behind.current)
  else none

/-- The kind of a word. -/
def word? (start behind : Lexer) : Option Kind :=
  (start.slice? behind).map fun word => wordKind word.toList

/-- A run of digits, which must not be empty. -/
def digits (isDigit : Char → Bool) (missing : LexicalFault) (l : Lexer) :
    Except LexicalFault Kind × Lexer :=
  match l.digitRun isDigit with
  | (0, behind) => (.error missing, behind)
  | (_, behind) => (.ok .number, behind)

/-- Reads the fraction of a decimal number, if there is one. -/
def fraction (l : Lexer) : Lexer :=
  if l.sees (· == '.') && l.seesNext Char.isDigit then (l.advance.digitRun Char.isDigit).2 else l

/-- Reads the sign of an exponent, if there is one. -/
def exponentSign (l : Lexer) : Lexer := if l.sees fun c => c == '+' || c == '-' then l.advance else l

/-- The exponent of a decimal number, if there is one. -/
def exponent (l : Lexer) : Except LexicalFault Kind × Lexer :=
  if l.sees isExponentSign then l.advance.exponentSign.digits Char.isDigit .exponentWithoutDigit
  else (.ok .number, l)

/-- The number whose first digit has been read. -/
def number (first : Char) (l : Lexer) : Except LexicalFault Kind × Lexer :=
  if first == '0' && l.sees isHexSign then l.advance.digits isHexDigit .hexWithoutDigit
  else if first == '0' && l.sees isOctalSign then l.advance.digits isOctalDigit .octalWithoutDigit
  else (l.digitRun Char.isDigit).2.fraction.exponent

/-- The literal whose opening delimiter has been read. -/
def quoted (delimiter : Char) (kind : Kind) (unterminated : LexicalFault) (l : Lexer) :
    Except LexicalFault Kind × Lexer :=
  if _h : l.peek?.isSome then
    if l.sees (· == delimiter) then (.ok kind, l.advance)
    else if l.sees (· == '\\') && l.seesNext (· == delimiter) then
      quoted delimiter kind unterminated l.advance.advance
    else quoted delimiter kind unterminated l.advance
  else (.error unterminated, l)
termination_by l.left
decreasing_by
  · exact Nat.lt_of_le_of_lt (left_advance_le _) (left_advance_lt _h)
  · exact left_advance_lt _h

/-- The mark or operator that a tree decides on. -/
def sign : SignTree → Lexer → Kind × Lexer
  | .found kind, l => (kind, l)
  | .eat expected eaten missed, l =>
    match l.eatAll? expected with
    | some behind => sign eaten behind
    | none => sign missed l

/-- What starts with `first`, which has been read behind `start`. A stray character is faulty text
with all of its bytes, so that the next token starts between two characters again. -/
def found? (start : Lexer) (first : Char) (l : Lexer) : Option (Except LexicalFault Kind × Lexer) :=
  if isWordStart first then
    let behind := l.advanceWhile fun b => isWordChar (Char.ofUInt8 b)
    (start.word? behind).map fun kind => (.ok kind, behind)
  else if first.isDigit then some (l.number first)
  else if first = '"' then some (l.quoted '"' .stringLiteral .unterminatedString)
  else if first = '\'' then some (l.quoted '\'' .charLiteral .unterminatedCharacter)
  else
    match signTree? first with
    | some tree =>
      match l.sign tree with
      | (kind, behind) => some (.ok kind, behind)
    | none => some (.error .unexpectedCharacter, l.advanceWhile isContinuation)

/-- The token that was found between two places. The text of a valid one is cut out of the bytes. -/
def token? (start : Lexer) : Except LexicalFault Kind → (behind : Lexer) → Option Token
  | .ok kind, behind => (start.slice? behind).map fun lexeme => ⟨kind, lexeme, start.position⟩
  | .error fault, _ => some (.invalid fault start.position)

/-- The next token and the place behind it. There is none if the text of a token were cut out in the
middle of a character. -/
def next? (l : Lexer) : Option (Token × Lexer) :=
  match l.skipTrivia with
  | .error (opener, behind) => some (.invalid .unterminatedComment opener.position, behind)
  | .ok start =>
    match start.peek? with
    | none => (start.token? (.ok .endOfFile) start).map fun t => (t, start)
    | some b =>
      match start.found? (Char.ofUInt8 b) start.advance with
      | none => none
      | some (outcome, behind) => (start.token? outcome behind).map fun t => (t, behind)

/-- The tokens up to the end of the text, if there are fewer than `fuel`. -/
def upTo? : Nat → Lexer → Option Stream
  | 0, _ => none
  | fuel + 1, l =>
    match l.next? with
    | none => none
    | some (t, behind) =>
      if t.kind = .endOfFile then some ⟨[], t⟩ else (upTo? fuel behind).map (.cons t)

/-- The tokens of a text. Every token takes a byte, so there are no more of them than bytes. -/
def tokens? (text : String) : Option Stream := upTo? (text.utf8ByteSize + 1) (ofText text)

end Lexer

end FrontEnd
