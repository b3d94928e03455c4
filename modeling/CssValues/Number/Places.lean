import CssValues.Number.Layout

/-!
# Natural numbers with a given number of places

Forms that fix how many digits are written: behind the point in `fixedPlaces`, behind the first
digit in `scientificPlaces`, and in all in `generalPlaces`. A number is rounded to the digits that
are written, a tie going to the even neighbour.
-/

namespace CssValues

/-- Digits behind a point. Without digits the point is written only if it is to be kept. -/
def behindPoint (keepPoint : Bool) (digits : Text) : Text :=
  if digits.isEmpty && !keepPoint then [] else '.' :: digits

/-- The first digits of a number, `count` of them if there are as many, and the power of ten that
the first one counts. -/
def leadingDigits (count n : Nat) : Text × Nat :=
  let digits := Text.ofNat n
  if digits.length ≤ count then (digits, digits.length - 1)
  else
    let dropped := digits.length - count
    let rounded := Text.ofNat (nearestEven ((n : Rat) / Nat.pow 10 dropped)).toNat
    (rounded.take count, dropped + rounded.length - 1)

def fixedPlaces (places : Nat) (keepPoint : Bool) (n : Nat) : Text :=
  Text.ofNat n ++ behindPoint keepPoint (List.replicate places '0')

def scientificPlaces (places : Nat) (keepPoint : Bool) (n : Nat) : Text :=
  let (digits, power) := leadingDigits (places + 1) n
  let zeros := List.replicate (places + 1 - digits.length) '0'
  digits.take 1 ++ behindPoint keepPoint (digits.drop 1 ++ zeros) ++ powerOfTen power

/-- A number with at most `count` digits, with a power of ten only if it is longer. Zeros at the end
of the digits behind the point are written only if the point is to be kept. -/
def generalPlaces (count : Nat) (keepPoint : Bool) (n : Nat) : Text :=
  let whole := Text.ofNat n
  if whole.length ≤ count then
    whole ++ if keepPoint then '.' :: List.replicate (count - whole.length) '0' else []
  else
    let (digits, power) := leadingDigits count n
    let behind := digits.drop 1
    let kept :=
      if keepPoint then behind else (behind.reverse.dropWhile (· == '0')).reverse
    digits.take 1 ++ behindPoint keepPoint kept ++ powerOfTen power

end CssValues
