import CssValues.Number.Basic

/-!
# Powers with a fractional exponent

The power of a positive double, computed with 200 binary places behind the point and rounded once.
Numbers in between are integers that count units of `2 ^ -200`.
-/

namespace CssValues.Power

/-- The number of units in one. -/
def one : Int := Nat.pow 2 200

def units (q : Rat) : Int := (q * one).floor

def mul (a b : Int) : Int := a * b / one

/-- The sum of `z ^ k / k` over odd `k`, of which `terms` are added; `power` is the current power of
`z`. -/
def oddSeries (square power : Int) (k : Int) : Nat → Int
  | 0 => 0
  | terms + 1 => power / k + oddSeries square (mul power square) (k + 2) terms

/-- The natural logarithm of a rational number from `1` up to `2`, as twice the inverse hyperbolic
tangent of `(q - 1) / (q + 1)`. That is at most one third, so each term is a ninth of the one
before. -/
def logUnits (q : Rat) : Int :=
  let z := units ((q - 1) / (q + 1))
  2 * oddSeries (mul z z) z 1 70

/-- The sum of `x ^ k / k!`, of which `terms` are added from `term` on. -/
def expSeries (x term : Int) (k : Int) : Nat → Int
  | 0 => 0
  | terms + 1 => term + expSeries x (mul term x / k) (k + 1) terms

/-- The double nearest to `base ^ exponent`, for a positive base. The logarithm of the power is
split into whole multiples of the logarithm of two and a rest below that. -/
def ofPositive (base exponent : Rat) : Binary64 :=
  let shift := floorLog2 base
  let logTwo := logUnits 2
  let logBase := shift * logTwo + logUnits (base / (2 : Rat) ^ shift)
  let logPower := (exponent * logBase).floor
  let turns := logPower / logTwo
  let rest := logPower % logTwo
  Binary64.ofRat ((expSeries rest one 1 80 : Rat) / one * (2 : Rat) ^ turns)

end CssValues.Power
