import FrontEnd.Decimal.Binary

set_option autoImplicit false

/-! # The shortest decimal that stands for a number

Among the decimals in the rounding interval of a number those with the fewest digits are wanted,
and among these the one nearest to the number, the larger one on a tie. For each count of digits,
from one on, only the two decimals around the number have to be looked at: if any decimal with
that many digits lies in the interval, one of these two does.
-/

namespace FrontEnd

/-- The decimal without zeros at its end, of which at most `fuel` are dropped. -/
def Decimal.strip : Nat → Decimal → Decimal
  | 0, d => d
  | fuel + 1, d =>
    if d.digits ≠ 0 ∧ d.digits % 10 = 0 then strip fuel ⟨d.digits / 10, d.exponent + 1⟩ else d

namespace RoundingInterval

/-- The number is less than `10 ^ k`. -/
def below (x : RoundingInterval) (k : Int) : Bool :=
  Decimal.compareScaled 1 k x.value x.scale == .gt

/-- The least `k` such that the number is less than `10 ^ k`. The binary logarithm times
0.30103, a little more than the decimal logarithm of two, is at most two below it. -/
def magnitude (x : RoundingInterval) : Int :=
  let estimate := Int.fdiv (((x.value.log2 : Int) + x.scale) * 30103) 100000
  (([estimate, estimate + 1].find? x.below).getD (estimate + 2))

/-- The decimal in the interval that is a whole multiple of `10 ^ i`, if one of the two multiples
around the number is; of two the nearer, and the larger one on a tie. -/
def onGrid (x : RoundingInterval) (i : Int) : Option Decimal :=
  let lower := x.quotient i
  let down : Decimal := ⟨lower, i⟩
  let up : Decimal := ⟨lower + 1, i⟩
  match x.contains down, x.contains up with
  | false, false => none
  | true, false => some down
  | false, true => some up
  | true, true =>
    if Decimal.compareScaled (2 * lower + 1) i (2 * x.value) x.scale == .gt then some down
    else some up

/-- The shortest decimal in the interval. Seventeen digits are enough for every number. -/
def shortest (x : RoundingInterval) : Decimal :=
  let k := x.magnitude
  match (List.range 17).findSome? (fun n => x.onGrid (k - (n + 1 : Nat))) with
  | some d => d.strip 17
  | none => ⟨x.quotient (k - 17), k - 17⟩

end RoundingInterval

end FrontEnd
