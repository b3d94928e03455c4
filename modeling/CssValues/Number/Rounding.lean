/-!
# Rounding a rational number

`nearestEven` rounds to an integer and lets a tie go to the even neighbour. `floorLog2` finds the
power of two at or below a positive rational number.
-/

namespace CssValues

/-- The integer nearest to `q`; a tie goes to the even neighbour. -/
def nearestEven (q : Rat) : Int :=
  let low := q.floor
  let rest := q - low
  if rest < 1 / 2 then low
  else if 1 / 2 < rest then low + 1
  else if low % 2 = 0 then low
  else low + 1

/-- The integer `k` with `2 ^ k ≤ q < 2 ^ (k + 1)`, for a positive `q`. The binary lengths of
numerator and denominator leave two candidates. -/
def floorLog2 (q : Rat) : Int :=
  let k : Int := (q.num.natAbs.log2 : Int) - (q.den.log2 : Int)
  if (2 : Rat) ^ k ≤ q then k else k - 1

end CssValues
