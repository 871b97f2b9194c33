import FrontEnd.Token.Reserved
import FrontEnd.Token.Basic

set_option autoImplicit false

/-! # One token at the start of a text

`scan` reads one token, or one piece of faulty text, at the start of a text that begins with
neither a blank nor a comment. What it finds is a `Scan`: the kind or the fault, and the number of
characters that were read, which is never zero. The text of the token is that many characters of
the text, so scanning can neither lose nor invent any.
-/

namespace FrontEnd

/-- What stands at the start of a text, and how many characters it takes. -/
structure Scan where
  outcome : Except LexicalFault Kind
  length : Nat

namespace Scan

/-- A token of the given kind and length. -/
def token (kind : Kind) (length : Nat) : Scan := ⟨.ok kind, length⟩

/-- Faulty text of the given length. -/
def fault (fault : LexicalFault) (length : Nat) : Scan := ⟨.error fault, length⟩

end Scan

/-! ## Words -/

/-- The characters that a word may start with: ASCII letters and the underscore. -/
def isWordStart (c : Char) : Bool := c.isAlpha || c == '_'

/-- The characters of a word: ASCII letters and digits and the underscore. -/
def isWordChar (c : Char) : Bool := c.isAlphanum || c == '_'

/-- The word at the start of a text. -/
def scanWord (text : List Char) : Scan :=
  let word := text.takeWhile isWordChar
  .token (wordKind word) word.length

/-! ## Numbers

Underscores may stand anywhere among the digits of a number, but they are no digits. -/

/-- The longest run of digits and underscores at the start of a text. -/
def digitRun (isDigit : Char → Bool) (text : List Char) : List Char :=
  text.takeWhile (fun c => isDigit c || c == '_')

/-- The digits to base sixteen. -/
def isHexDigit (c : Char) : Bool :=
  c.isDigit || ('a' ≤ c && c ≤ 'f') || ('A' ≤ c && c ≤ 'F')

/-- The digits to base eight. -/
def isOctalDigit (c : Char) : Bool := '0' ≤ c && c ≤ '7'

/-- The letters that announce a number to base sixteen after a zero. -/
def isHexSign (c : Char) : Bool := c == 'x' || c == 'X'

/-- The letters that announce a number to base eight after a zero. -/
def isOctalSign (c : Char) : Bool := c == 'o' || c == 'O' || c == 'q' || c == 'Q'

/-- A number to a base of its own: two characters that announce it, and a run with a digit. -/
def scanRadix (isDigit : Char → Bool) (missing : LexicalFault) (text : List Char) : Scan :=
  let run := digitRun isDigit text
  if run.any isDigit then .token .number (2 + run.length) else .fault missing (2 + run.length)

/-- The length of the fraction at the start of a text: a point and a run that starts with a digit,
so that the points of a range stay out of it. -/
def fractionLength : List Char → Nat
  | '.' :: d :: rest => if d.isDigit then 1 + (digitRun Char.isDigit (d :: rest)).length else 0
  | _ => 0

/-- The length of the sign at the start of a text. -/
def signLength : List Char → Nat
  | c :: _ => if c = '+' ∨ c = '-' then 1 else 0
  | [] => 0

/-- The letters that announce an exponent. -/
def isExponentSign (c : Char) : Bool := c == 'e' || c == 'E'

/-- What follows the digits of a decimal number of which `n` characters were read: an exponent,
which needs a digit, or the end of the number. -/
def scanExponent (n : Nat) : List Char → Scan
  | [] => .token .number n
  | c :: rest =>
    if isExponentSign c then
      let sign := signLength rest
      let run := digitRun Char.isDigit (rest.drop sign)
      let length := n + 1 + sign + run.length
      if run.any Char.isDigit then .token .number length
      else .fault .exponentWithoutDigit length
    else .token .number n

/-- A decimal number: digits, then perhaps a fraction, then perhaps an exponent. -/
def scanDecimal (text : List Char) : Scan :=
  let whole := (digitRun Char.isDigit text).length
  let fraction := fractionLength (text.drop whole)
  scanExponent (whole + fraction) (text.drop (whole + fraction))

/-- The number at the start of a text. -/
def scanNumber : List Char → Scan
  | '0' :: c :: rest =>
    if isHexSign c then scanRadix isHexDigit .hexWithoutDigit rest
    else if isOctalSign c then scanRadix isOctalDigit .octalWithoutDigit rest
    else scanDecimal ('0' :: c :: rest)
  | text => scanDecimal text

/-! ## Quoted literals -/

/-- The number of characters up to and including the delimiter that closes a literal, `n` of which
have been read. A delimiter behind a backslash does not close it. -/
def closingLength (delimiter : Char) : Nat → List Char → Option Nat
  | _, [] => none
  | n, [c] => if c = delimiter then some (n + 1) else none
  | n, c :: d :: rest =>
    if c = delimiter then some (n + 1)
    else if c = '\\' ∧ d = delimiter then closingLength delimiter (n + 2) rest
    else closingLength delimiter (n + 1) (d :: rest)

/-- The literal at the start of a text whose first character, the delimiter, is left out. Without
a closing delimiter the whole text is faulty. -/
def scanQuoted (delimiter : Char) (kind : Kind) (unterminated : LexicalFault)
    (rest : List Char) : Scan :=
  match closingLength delimiter 1 rest with
  | some n => .token kind n
  | none => .fault unterminated (1 + rest.length)

/-! ## Marks and operators

The first character of a mark or an operator has been read before it is known which one it is. What
follows is looked at from left to right: as long as the next characters lead to a longer spelling,
they are read as well. -/

/-- What is still to be decided about a mark or an operator of which a part has been read. -/
inductive SignTree where
  /-- It ends here. -/
  | found (kind : Kind)
  /-- If all of the expected characters follow, they are read, otherwise none of them is. -/
  | eat (expected : List Char) (eaten missed : SignTree)

namespace SignTree

/-- The kind that a tree decides on in front of a text, and how many characters of the text it
reads. -/
def read : SignTree → List Char → Kind × Nat
  | found kind, _ => (kind, 0)
  | eat expected eaten missed, rest =>
    if expected.isPrefixOf rest then
      match eaten.read (rest.drop expected.length) with
      | (kind, n) => (kind, expected.length + n)
    else missed.read rest

/-- A mark ends here. -/
def mark (m : Mark) : SignTree := .found (.mark m)

/-- An operator ends here. -/
def operator (op : BinaryOp) : SignTree := .found (.operator op)

/-- The arithmetic of one flavour of overflow, behind the sign of this flavour. One angle alone is
not read, since only two of them are an operator. -/
def arithmetic (o : Overflow) (otherwise : SignTree) : SignTree :=
  .eat ['+']
    (.eat ['+'] (.found (.step .increment o)) <|
      .eat ['='] (operator (.addAssign o)) <|
      operator (.add o)) <|
  .eat ['-']
    (.eat ['-'] (.found (.step .decrement o)) <|
      .eat ['='] (operator (.subAssign o)) <|
      operator (.sub o)) <|
  .eat ['*']
    (.eat ['='] (operator (.mulAssign o)) <|
      operator (.mul o)) <|
  .eat ['<', '<']
    (.eat ['='] (operator (.shlAssign o)) <|
      operator (.shl o))
  otherwise

end SignTree

open SignTree in
/-- What is to be decided behind the first character of a mark or an operator. -/
def signTree? : Char → Option SignTree
  | '(' => some (mark .leftParen)
  | ')' => some (mark .rightParen)
  | '\x7b' => some (mark .leftBrace)
  | '\x7d' => some (mark .rightBrace)
  | '[' => some (mark .leftBracket)
  | ']' => some (mark .rightBracket)
  | ',' => some (mark .comma)
  | ';' => some (mark .semicolon)
  | '#' => some (mark .hash)
  | '~' => some (mark .tilde)
  | '.' => some <|
    .eat ['.']
      (.eat ['='] (mark .closedRange) <|
        .eat ['<'] (mark .openRange) <|
        mark .dotDot) <|
    mark .dot
  | ':' => some <|
    .eat [':']
      (.eat ['='] (mark .defineConst) <|
        mark .scope) <|
    .eat ['='] (mark .define) <|
    mark .colon
  | '=' => some <|
    .eat ['='] (operator .eq) <|
    operator .assign
  | '!' => some <|
    .eat ['='] (operator .ne) <|
    mark .bang
  | '+' => some <|
    .eat ['+'] (.found (.step .increment .plain)) <|
    .eat ['='] (operator (.addAssign .plain)) <|
    operator (.add .plain)
  | '-' => some <|
    .eat ['-'] (.found (.step .decrement .plain)) <|
    .eat ['='] (operator (.subAssign .plain)) <|
    .eat ['>'] (mark .arrow) <|
    operator (.sub .plain)
  | '*' => some <|
    .eat ['='] (operator (.mulAssign .plain)) <|
    operator (.mul .plain)
  | '/' => some <|
    .eat ['='] (operator .divAssign) <|
    operator .div
  | '%' => some <|
    arithmetic .wrapping <|
    .eat ['='] (operator .modAssign) <|
    operator .mod
  | '@' => some <|
    arithmetic .saturating <|
    mark .atSign
  | '<' => some <|
    .eat ['<']
      (.eat ['='] (operator (.shlAssign .plain)) <|
        operator (.shl .plain)) <|
    .eat ['='] (operator .le) <|
    .eat ['-'] (mark .leftArrow) <|
    operator .lt
  | '>' => some <|
    .eat ['>']
      (.eat ['='] (operator .shrAssign) <|
        operator .shr) <|
    .eat ['='] (operator .ge) <|
    operator .gt
  | '&' => some <|
    .eat ['&'] (operator .and) <|
    .eat ['='] (operator .bitAndAssign) <|
    operator .bitAnd
  | '|' => some <|
    .eat ['|']
      (.eat ['='] (operator .orAssign) <|
        operator .or) <|
    .eat ['='] (operator .bitOrAssign) <|
    operator .bitOr
  | '^' => some <|
    .eat ['='] (operator .bitXorAssign) <|
    operator .bitXor
  | '?' => some <|
    .eat ['?']
      (.eat ['='] (operator .nullCoalesceAssign) <|
        operator .nullCoalesce) <|
    .eat ['.'] (mark .questionDot) <|
    mark .question
  | _ => none

/-- The mark or operator at the start of a text. A character that starts none is faulty alone. -/
def scanSymbol : List Char → Scan
  | [] => .fault .unexpectedCharacter 1
  | c :: rest =>
    match signTree? c with
    | none => .fault .unexpectedCharacter 1
    | some tree =>
      match tree.read rest with
      | (kind, n) => .token kind (1 + n)

/-! ## All tokens -/

/-- The token or the faulty text that starts with `c`. -/
def scan (c : Char) (rest : List Char) : Scan :=
  if isWordStart c then scanWord (c :: rest)
  else if c.isDigit then scanNumber (c :: rest)
  else if c = '"' then scanQuoted '"' .stringLiteral .unterminatedString rest
  else if c = '\'' then scanQuoted '\'' .charLiteral .unterminatedCharacter rest
  else scanSymbol (c :: rest)

end FrontEnd
