set_option autoImplicit false

/-! # Binary numbers and the decimals that stand for them

A finite number of the 64-bit binary format is a whole multiple of a power of two. The reals that
are nearer to it than to its neighbours form its rounding interval: any decimal in the interval
stands for the number. `RoundingInterval.ofBits` takes the interval from the bits, with the
number and both ends counted in one unit, a power of two, so that membership of a decimal is a
comparison of natural numbers.
-/

namespace FrontEnd

/-- The number `digits * 10 ^ exponent`. -/
structure Decimal where
  digits : Nat
  exponent : Int
deriving DecidableEq, Repr

/-- Compares `a * 10 ^ i` with `b * 2 ^ j`. -/
def Decimal.compareScaled (a : Nat) (i : Int) (b : Nat) (j : Int) : Ordering :=
  compare (a * Nat.pow 10 i.toNat * Nat.pow 2 (-j).toNat)
    (b * Nat.pow 2 j.toNat * Nat.pow 10 (-i).toNat)

/-- A positive number with the reals that are rounded to it. The number `value` and the ends
`low` and `high` count units of `2 ^ scale`; the ends belong to the interval if `closed` holds. -/
structure RoundingInterval where
  low : Nat
  value : Nat
  high : Nat
  scale : Int
  closed : Bool
deriving DecidableEq, Repr

namespace RoundingInterval

/-- The interval of the positive finite number with the given bits. Its ends lie halfway to the
neighbours; the neighbour below a power of two is only half as far away as the one above. A tie
is rounded to the neighbour with the even significand, so the ends belong to those. -/
def ofBits (bits : UInt64) : RoundingInterval :=
  let field : Nat := bits.toNat / Nat.pow 2 52 % Nat.pow 2 11
  let fraction : Nat := bits.toNat % Nat.pow 2 52
  let significand : Nat := if field = 0 then fraction else Nat.pow 2 52 + fraction
  let exponent : Int := if field = 0 then -1074 else (field : Int) - 1075
  let below : Nat := if fraction = 0 ∧ 1 < field then 1 else 2
  ⟨4 * significand - below, 4 * significand, 4 * significand + 2, exponent - 2,
    significand % 2 == 0⟩

/-- The decimal lies in the interval. -/
def contains (x : RoundingInterval) (d : Decimal) : Bool :=
  let fromLow := Decimal.compareScaled d.digits d.exponent x.low x.scale
  let fromHigh := Decimal.compareScaled d.digits d.exponent x.high x.scale
  (fromLow == .gt || (x.closed && fromLow == .eq)) &&
    (fromHigh == .lt || (x.closed && fromHigh == .eq))

/-- The whole part of the number divided by `10 ^ i`. -/
def quotient (x : RoundingInterval) (i : Int) : Nat :=
  (x.value * Nat.pow 2 x.scale.toNat * Nat.pow 10 (-i).toNat) /
    (Nat.pow 2 (-x.scale).toNat * Nat.pow 10 i.toNat)

end RoundingInterval

end FrontEnd
