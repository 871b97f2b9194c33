import FrontEnd.Text.CharClass

set_option autoImplicit false

/-! # Quoted text

A text is quoted by writing a delimiter on either side of its characters. The backslash, the
delimiter and five control characters are written as a backslash and one more character. Other
characters that would not be seen, or would be seen as part of the one before, are written by
their code points.
-/

namespace FrontEnd

/-- The letter behind a backslash that stands for a character, whatever the delimiter. -/
def escapeLetter? (c : Char) : Option Char :=
  if c = '\x00' then some '0'
  else if c = '\t' then some 't'
  else if c = '\n' then some 'n'
  else if c = '\r' then some 'r'
  else if c = '\\' then some '\\'
  else none

/-- The characters that stand for themselves: the printable ASCII characters, and the others that
are seen as characters of their own. -/
def isPlain (c : Char) : Bool :=
  (' ' ≤ c && c ≤ '~') || (isPrintable c && !isExtending c)

/-- A character by its code point to base sixteen. -/
def escapeCode (c : Char) : List Char :=
  '\\' :: 'u' :: '\x7b' :: (Nat.toDigits 16 c.toNat ++ ['\x7d'])

/-- A character as it is written between delimiters. -/
def escape (delimiter c : Char) : List Char :=
  match escapeLetter? c with
  | some letter => ['\\', letter]
  | none =>
    if c = delimiter then ['\\', c]
    else if isPlain c then [c]
    else escapeCode c

/-- A text between delimiters. -/
def quote (delimiter : Char) (text : List Char) : List Char :=
  delimiter :: (text.flatMap (escape delimiter) ++ [delimiter])

/-- A text in double quotes. -/
def quoteString (text : String) : String := String.ofList (quote '"' text.toList)

/-- A character in single quotes. -/
def quoteChar (c : Char) : String := String.ofList (quote '\'' [c])

end FrontEnd
