import FrontEnd.Decimal.Shortest

set_option autoImplicit false

/-! # Writing a floating-point number

A number is written with the digits of its shortest decimal. From `1e-4` up to, but not
including, `1e16` the digits stand at their places around a point, with at least one digit on
either side; smaller and larger numbers have one digit before the point, no point without a digit
behind it, and an exponent of ten. Zero and infinity have texts of their own, and a sign comes
first.
-/

namespace FrontEnd

/-- The point stands at its place for numbers whose leading digit has at least this exponent. -/
def leastPlainExponent : Int := -4

/-- The point stands at its place for numbers whose leading digit has a smaller exponent. -/
def plainExponentBound : Int := 16

namespace Decimal

/-- The digits, the point at its place `point` characters after the first digit. -/
def renderPlain (digits : List Char) (point : Int) : List Char :=
  if point ≤ 0 then '0' :: '.' :: (List.replicate (-point).toNat '0' ++ digits)
  else
    let whole := digits.take point.toNat
    let rest := digits.drop point.toNat
    whole ++ List.replicate (point.toNat - digits.length) '0' ++ '.' ::
      (if rest.isEmpty then ['0'] else rest)

/-- One digit, the others behind a point, and the exponent. -/
def renderScientific (digits : List Char) (exponent : Int) : List Char :=
  let rest := digits.drop 1
  digits.take 1 ++ (if rest.isEmpty then [] else '.' :: rest) ++ 'e' :: (toString exponent).toList

/-- The written form of a positive decimal. -/
def render (d : Decimal) : String :=
  let digits := Nat.toDigits 10 d.digits
  let exponent := d.exponent + digits.length - 1
  String.ofList <|
    if leastPlainExponent ≤ exponent ∧ exponent < plainExponentBound then
      renderPlain digits (exponent + 1)
    else renderScientific digits exponent

end Decimal

/-- The written form of a floating-point number. -/
def renderFloat (x : Float) : String :=
  let bits := x.toBits
  let magnitude := bits &&& 0x7FFFFFFFFFFFFFFF
  if x.isNaN then "NaN"
  else
    (if bits = magnitude then "" else "-") ++
      (if magnitude = 0 then "0.0"
       else if x.isInf then "inf"
       else (RoundingInterval.ofBits magnitude).shortest.render)

end FrontEnd
