import CssValues.Number.Rounding

/-!
# Double precision numbers

A `Binary64` is an exact value: a sign, a significand and an exponent, or an infinity, or the one
NaN. Every operation computes its exact rational result and rounds it once with `ofRat`, so the
rounding rule (nearest, ties to even, overflow to infinity) is stated in one place.
-/

namespace CssValues

/-- The pairs `(m, e)` whose value `m * 2 ^ e` is a double in its one canonical form: at most 53
bits, and a full significand unless the exponent is the least one. -/
def FitsBinary64 (m : Nat) (e : Int) : Prop :=
  m < 9007199254740992 ∧ -1074 ≤ e ∧ e ≤ 971 ∧ (4503599627370496 ≤ m ∨ e = -1074)

instance (m : Nat) (e : Int) : Decidable (FitsBinary64 m e) :=
  inferInstanceAs (Decidable (_ ∧ _ ∧ _ ∧ (_ ∨ _)))

/-- A double precision number. The two zeros differ in their sign. -/
inductive Binary64 where
  | finite (negative : Bool) (significand : Nat) (exponent : Int)
      (fits : FitsBinary64 significand exponent)
  | infinite (negative : Bool)
  | nan
  deriving DecidableEq

namespace Binary64

def zero (negative : Bool) : Binary64 :=
  .finite negative 0 (-1074) (by decide)

instance : Inhabited Binary64 := ⟨zero false⟩

def exact (negative : Bool) (m : Nat) (e : Int) : Rat :=
  if negative then -((m : Rat) * (2 : Rat) ^ e) else (m : Rat) * (2 : Rat) ^ e

/-- The exact value of a finite number, none for the infinities and NaN. -/
def toRat? : Binary64 → Option Rat
  | .finite negative m e _ => some (exact negative m e)
  | _ => none

def isFinite : Binary64 → Bool
  | .finite .. => true
  | _ => false

def isNaN : Binary64 → Bool
  | .nan => true
  | _ => false

/-- The sign bit; NaN carries none. -/
def isNegative : Binary64 → Bool
  | .finite negative _ _ _ => negative
  | .infinite negative => negative
  | .nan => false

/-! ## Rounding -/

/-- The number `m * 2 ^ e`, or the infinity when that exponent is too large. -/
def pack (negative : Bool) (m : Nat) (e : Int) : Binary64 :=
  if h : FitsBinary64 m e then .finite negative m e h else .infinite negative

/-- The exponent of the grid on which a positive number of magnitude `q` is rounded. -/
def gridExponent (q : Rat) : Int :=
  max (-1074) (floorLog2 q - 52)

/-- The number of the given sign nearest to the magnitude `q`. A significand which rounds up to
`2 ^ 53` moves to the next exponent. -/
def ofMagnitude (negative : Bool) (q : Rat) : Binary64 :=
  if q = 0 then zero negative
  else
    let e := gridExponent q
    let m := (nearestEven (q / (2 : Rat) ^ e)).toNat
    if m = 9007199254740992 then pack negative 4503599627370496 (e + 1)
    else pack negative m e

/-- The number nearest to `q`. A negative `q` too small to be seen gives the negative zero. -/
def ofRat (q : Rat) : Binary64 :=
  if q < 0 then ofMagnitude true (-q) else ofMagnitude false q

def ofInt (n : Int) : Binary64 := ofRat n

/-! ## Arithmetic -/

def neg : Binary64 → Binary64
  | .finite negative m e h => .finite (!negative) m e h
  | .infinite negative => .infinite (!negative)
  | .nan => .nan

def abs : Binary64 → Binary64
  | .finite _ m e h => .finite false m e h
  | .infinite _ => .infinite false
  | .nan => .nan

/-- Sum. Opposite infinities have none. An exact zero is positive, unless both terms are negative:
then both are the negative zero, and so is the sum. -/
def add : Binary64 → Binary64 → Binary64
  | .nan, _ => .nan
  | _, .nan => .nan
  | .infinite a, .infinite b => if a = b then .infinite a else .nan
  | .infinite a, .finite .. => .infinite a
  | .finite .., .infinite b => .infinite b
  | .finite a m e _, .finite b n f _ =>
    let sum := exact a m e + exact b n f
    if sum = 0 then zero (a && b) else ofRat sum

def sub (x y : Binary64) : Binary64 := add x (neg y)

/-- Product. Its sign is the exclusive or of the signs, also for zeros and infinities. -/
def mul (x y : Binary64) : Binary64 :=
  let negative := x.isNegative != y.isNegative
  match x, y with
  | .nan, _ => .nan
  | _, .nan => .nan
  | .infinite _, .finite _ m _ _ => if m = 0 then .nan else .infinite negative
  | .finite _ m _ _, .infinite _ => if m = 0 then .nan else .infinite negative
  | .infinite _, .infinite _ => .infinite negative
  | .finite _ m e _, .finite _ n f _ =>
    ofMagnitude negative (exact false m e * exact false n f)

def div (x y : Binary64) : Binary64 :=
  let negative := x.isNegative != y.isNegative
  match x, y with
  | .nan, _ => .nan
  | _, .nan => .nan
  | .infinite _, .infinite _ => .nan
  | .infinite _, .finite .. => .infinite negative
  | .finite .., .infinite _ => zero negative
  | .finite _ m e _, .finite _ n f _ =>
    ofMagnitude negative (exact false m e / exact false n f)

def isZero : Binary64 → Bool
  | .finite _ m _ _ => m = 0
  | _ => false

end Binary64

end CssValues
