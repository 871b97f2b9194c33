import FrontEnd.Source.Position
import FrontEnd.Token.Kind

set_option autoImplicit false

/-! # Tokens

A `Token` is a piece of the source text with its kind and the place of its first character. A
token of the kind `invalid` stands for text that is no token; its lexeme is the text of the
`LexicalFault`.
-/

namespace FrontEnd

/-- What can be wrong with a piece of text that should be a token. -/
inductive LexicalFault where
  | unexpectedCharacter
  | unterminatedString
  | unterminatedCharacter
  | unterminatedComment
  | hexWithoutDigit
  | octalWithoutDigit
  | exponentWithoutDigit
deriving DecidableEq, Repr

/-- What the user is told. -/
def LexicalFault.message : LexicalFault → String
  | unexpectedCharacter => "Unexpected character."
  | unterminatedString => "Unterminated string."
  | unterminatedCharacter => "Unterminated character literal."
  | unterminatedComment => "Unterminated block comment."
  | hexWithoutDigit => "Invalid hex literal."
  | octalWithoutDigit => "Invalid octal literal."
  | exponentWithoutDigit => "Invalid exponent literal."

/-- A piece of the source text with its kind and the place of its first character. -/
structure Token where
  kind : Kind
  lexeme : String
  position : Position
deriving DecidableEq, Repr

/-- The part of a text before its first line feed. -/
def firstLine (text : String) : String := String.ofList (text.toList.takeWhile (· != '\n'))

namespace Token

/-- The token that stands for faulty text. -/
def invalid (fault : LexicalFault) (p : Position) : Token := ⟨.invalid, fault.message, p⟩

/-- The token that stands for the end of the text. -/
def endOfFile (p : Position) : Token := ⟨.endOfFile, "", p⟩

/-- The number of columns that a token covers on its first line, at least one. A token without a
text of its own covers one. -/
def width (t : Token) : Nat :=
  match t.kind with
  | .invalid | .endOfFile => 1
  | _ => max (firstLine t.lexeme).length 1

/-- How a message refers to a token: identifiers and numbers with their text, literals with their
first line, all others by their kind. -/
def describe (t : Token) : String :=
  match t.kind with
  | .identifier => "identifier '" ++ t.lexeme ++ "'"
  | .number => "number '" ++ t.lexeme ++ "'"
  | .stringLiteral | .charLiteral => t.kind.spelling ++ " " ++ firstLine t.lexeme
  | _ => t.kind.describe

theorem one_le_width (t : Token) : 1 ≤ t.width := by
  unfold width
  split <;> omega

end Token

end FrontEnd
