import CssValues.Number.Basic

/-!
# Decimal numbers and the doubles nearest to them

`Decimal.toDouble` reads a decimal number of any length as the nearest double. `shortest` goes the
other way: on the coarsest decimal grid that has a point which reads back, it takes the point
nearest to the double.
-/

namespace CssValues

/-- The number `coefficient * 10 ^ exponent` with a sign. -/
structure Decimal where
  negative : Bool
  coefficient : Nat
  exponent : Int
  deriving DecidableEq

namespace Decimal

def magnitude (d : Decimal) : Rat := (d.coefficient : Rat) * (10 : Rat) ^ d.exponent

/-- The nearest double. An exponent far beyond the range of doubles settles the result before any
power is computed: a coefficient is below `2 ^ (log2 + 1)`, hence below `10 ^ (log2 + 1)`. -/
def toDouble (d : Decimal) : Binary64 :=
  if d.coefficient = 0 then .zero d.negative
  else if 400 < d.exponent then .infinite d.negative
  else if d.exponent < -400 - (d.coefficient.log2 : Int) then .zero d.negative
  else .ofMagnitude d.negative d.magnitude

/-- A power of ten above the positive number `q`, as its exponent. -/
def gridAbove (q : Rat) : Int :=
  ((Nat.toDigits 10 q.num.natAbs).length : Int) - (Nat.toDigits 10 q.den).length + 1

/-- A neighbour of `q` on the grid of multiples of `10 ^ p` that reads back as `x`, the nearer one
if both do. -/
def onGrid? (x : Binary64) (q : Rat) (p : Int) : Option Nat :=
  let scaled := q / (10 : Rat) ^ p
  let near := (nearestEven scaled).toNat
  let far := if (near : Rat) ≤ scaled then near + 1 else near - 1
  if toDouble ⟨false, near, p⟩ = x then some near
  else if toDouble ⟨false, far, p⟩ = x then some far
  else none

/-- The first hit on the grids `10 ^ p`, `10 ^ (p - 1)`, … of which `steps` are tried. The grid
after them is taken without a trial. -/
def shortestFrom (x : Binary64) (q : Rat) (p : Int) : Nat → Decimal
  | 0 => ⟨false, (nearestEven (q / (10 : Rat) ^ p)).toNat, p⟩
  | steps + 1 =>
    match onGrid? x q p with
    | some n => ⟨false, n, p⟩
    | none => shortestFrom x q (p - 1) steps

/-- The decimal of fewest digits that reads back as the positive double `x` of value `q`. Every
double is a multiple of `10 ^ -1074`, so the last grid holds it exactly. -/
def shortest (x : Binary64) (q : Rat) : Decimal :=
  shortestFrom x q (gridAbove q) (gridAbove q + 1074).toNat

end Decimal

end CssValues
