import FrontEnd.Decimal.Binary

set_option autoImplicit false

/-! # Reading numbers

`readNatural?` reads the digits of a natural number to a base, and `readFloat?` a decimal number
with a point and an exponent of ten, both optional. A floating-point number is the one nearest to
the written decimal; what is too large becomes infinite and what is too small becomes zero.
-/

namespace FrontEnd

/-- The value of a digit, in upper or lower case. -/
def digitValue? (c : Char) : Option Nat :=
  if '0' ≤ c ∧ c ≤ '9' then some (c.toNat - '0'.toNat)
  else if 'a' ≤ c ∧ c ≤ 'z' then some (c.toNat - 'a'.toNat + 10)
  else if 'A' ≤ c ∧ c ≤ 'Z' then some (c.toNat - 'A'.toNat + 10)
  else none

/-- The value of digits to a base behind the digits of `n`. -/
def appendDigits? (base : Nat) : Nat → List Char → Option Nat
  | n, [] => some n
  | n, c :: rest =>
    match digitValue? c with
    | none => none
    | some d => if d < base then appendDigits? base (n * base + d) rest else none

/-- The value of digits to a base. There is at least one, and a plus sign may come first. -/
def readNatural? (base : Nat) : List Char → Option Nat
  | [] => none
  | '+' :: rest => if rest.isEmpty then none else appendDigits? base 0 rest
  | text => appendDigits? base 0 text

/-- The floating-point number nearest to a decimal. A decimal of at least 10^309 is infinite and
one below 10^-324 is zero; the powers of ten in between are small enough to be computed. -/
def Decimal.toFloat (d : Decimal) : Float :=
  let magnitude := d.exponent + (Nat.toDigits 10 d.digits).length
  if d.digits = 0 ∨ magnitude ≤ -324 then 0.0
  else if 310 ≤ magnitude then Float.ofBits 0x7FF0000000000000
  else Float.ofScientific d.digits (d.exponent < 0) d.exponent.natAbs

/-- A sign in front of a number, and what follows it. -/
def splitSign : List Char → Bool × List Char
  | '-' :: rest => (true, rest)
  | '+' :: rest => (false, rest)
  | text => (false, text)

/-- The exponent at the end of a decimal number: none at all is zero. -/
def readExponent? : List Char → Option Int
  | [] => some 0
  | c :: rest =>
    if c = 'e' ∨ c = 'E' then
      match splitSign rest with
      | (negative, digits) =>
        if digits.isEmpty then none
        else (appendDigits? 10 0 digits).map fun n => if negative then -(n : Int) else (n : Int)
    else none

/-- The decimal number without its sign: digits before or behind a point, then the exponent. -/
def readDecimal? (text : List Char) : Option Decimal :=
  let whole := text.takeWhile Char.isDigit
  let behind := text.dropWhile Char.isDigit
  let fraction :=
    match behind with
    | '.' :: rest => rest.takeWhile Char.isDigit
    | _ => []
  let tail :=
    match behind with
    | '.' :: rest => rest.dropWhile Char.isDigit
    | _ => behind
  if whole.isEmpty && fraction.isEmpty then none
  else
    match appendDigits? 10 0 (whole ++ fraction), readExponent? tail with
    | some digits, some exponent => some ⟨digits, exponent - fraction.length⟩
    | _, _ => none

/-- A signed decimal number as a floating-point number. -/
def readFloat? (text : List Char) : Option Float :=
  match splitSign text with
  | (negative, rest) =>
    (readDecimal? rest).map fun d => if negative then -d.toFloat else d.toFloat

end FrontEnd
