import FrontEnd.Source.Buffer
import FrontEnd.Text.Quoted
import FrontEnd.Token.Lexer

set_option autoImplicit false

/-! # Listings of tokens

A listing of the tokens of a file: a line with the name of the file, then one line for each token
with its place, its kind and its quoted lexeme, in columns. The tokens are read by a `Lexer`, from the
bytes of the text.
-/

namespace FrontEnd

/-- A text with blanks in front of it, up to a width. -/
def padLeft (width : Nat) (text : String) : String :=
  String.ofList (List.replicate (width - text.length) ' ') ++ text

/-- A text with blanks behind it, up to a width. -/
def padRight (width : Nat) (text : String) : String :=
  text ++ String.ofList (List.replicate (width - text.length) ' ')

/-- The line of a token in a listing. -/
def Token.listing (t : Token) : String :=
  padLeft 4 (toString t.position.line) ++ ":" ++ padRight 3 (toString t.position.column) ++ " " ++
    padRight 14 t.kind.name ++ " " ++ quoteString t.lexeme ++ "\n"

/-- The listing of all tokens of a file, the end-of-file token included. -/
def Buffer.listing (b : Buffer) : String :=
  "== " ++ b.name ++ " ==\n" ++
    match Lexer.tokens? b.text with
    | some tokens => String.join (tokens.all.map Token.listing)
    | none => ""

end FrontEnd
