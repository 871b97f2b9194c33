import FrontEnd.Decimal.Read
import FrontEnd.Token.Basic

set_option autoImplicit false

/-! # The values of numbers

The text of a number is read without its underscores. Behind `0x` it is a natural number to base
sixteen, behind `0o` or `0q` one to base eight; with a point or an exponent it is a floating-point
number, and otherwise a natural number to base ten. Natural numbers must fit into 64 bits.
-/

namespace FrontEnd

/-- The value of a number. -/
inductive Numeral where
  | int (value : UInt64)
  | float (value : Float)

namespace Numeral

/-- A natural number as a value, if it fits into 64 bits. -/
def ofNat? (n : Nat) : Option Numeral :=
  if n < UInt64.size then some (.int n.toUInt64) else none

/-- The base that the first two characters of a number announce, and the text behind them. -/
def splitBase : List Char → Option (Nat × List Char)
  | '0' :: c :: rest =>
    if c = 'x' ∨ c = 'X' then some (16, rest)
    else if c = 'o' ∨ c = 'O' ∨ c = 'q' ∨ c = 'Q' then some (8, rest)
    else none
  | _ => none

/-- The characters that make a number a floating-point number. -/
def isFloatSign (c : Char) : Bool := c == '.' || c == 'e' || c == 'E'

/-- The value of a text without underscores. -/
def ofChars? (text : List Char) : Option Numeral :=
  match splitBase text with
  | some (base, digits) => (readNatural? base digits).bind ofNat?
  | none =>
    if text.any isFloatSign then (readFloat? text).map .float
    else (readNatural? 10 text).bind ofNat?

/-- The value of the text of a number. -/
def ofText? (text : String) : Option Numeral := ofChars? (text.toList.filter (· != '_'))

end Numeral

/-- The value of a number token; other tokens have none. -/
def Token.numeral? (t : Token) : Option Numeral :=
  match t.kind with
  | .number => Numeral.ofText? t.lexeme
  | _ => none

end FrontEnd
