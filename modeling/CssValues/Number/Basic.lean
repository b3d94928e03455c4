import CssValues.Number.Binary64

/-!
# Numbers

A `Number` is an unbounded integer or a double. Integers stay exact under `+`, `-` and `*`; an
integer that meets a double is rounded to one first; a quotient is always a double. Comparisons are
exact and never round. An operation without a result says why with a `Fault`.
-/

namespace CssValues

/-- Why an operation on numbers has no result. -/
inductive Fault where
  /-- An integer is beyond the doubles. -/
  | integerTooLarge
  /-- The quotient of two integers is beyond the doubles. -/
  | quotientTooLarge
  | divisionByZero
  /-- NaN has no nearest integer. -/
  | nanToInteger
  /-- An infinity has no nearest integer. -/
  | infinityToInteger
  /-- An integer is written with more digits than a reader accepts. -/
  | tooManyDigits (count : Nat)
  /-- An integer has more digits than are written. -/
  | tooLong
  deriving DecidableEq

inductive Number where
  | int (n : Int)
  | double (x : Binary64)
  deriving DecidableEq

/-- A position on the number line with its two ends. -/
inductive Position where
  | bottom
  | point (q : Rat)
  | top

namespace Position

def lt : Position → Position → Bool
  | .bottom, .bottom => false
  | .bottom, _ => true
  | .point p, .point q => p < q
  | .point _, .top => true
  | _, _ => false

def same : Position → Position → Bool
  | .bottom, .bottom => true
  | .point p, .point q => p = q
  | .top, .top => true
  | _, _ => false

end Position

/-- Where a double stands on the number line; NaN stands nowhere. -/
def Binary64.position? : Binary64 → Option Position
  | .finite negative m e _ => some (.point (exact negative m e))
  | .infinite negative => some (if negative then .bottom else .top)
  | .nan => none

namespace Number

instance : Inhabited Number := ⟨.int 0⟩

instance (n : Nat) : OfNat Number n := ⟨.int n⟩

/-! ## Order -/

def position? : Number → Option Position
  | .int n => some (.point n)
  | .double x => x.position?

/-- Numeric order; NaN is below nothing and above nothing. -/
def lt (a b : Number) : Bool :=
  match a.position?, b.position? with
  | some p, some q => p.lt q
  | _, _ => false

/-- Numeric equality: an integer equals the double of the same value, and NaN equals nothing. -/
def equals (a b : Number) : Bool :=
  match a.position?, b.position? with
  | some p, some q => p.same q
  | _, _ => false

def le (a b : Number) : Bool := a.lt b || a.equals b

/-- The larger number; the first one when neither is larger. -/
def max (a b : Number) : Number := if a.lt b then b else a

/-- The smaller number; the first one when neither is smaller. -/
def min (a b : Number) : Number := if b.lt a then b else a

/-- The number kept within the unit interval. NaN counts as one. -/
def unitShare (a : Number) : Number :=
  max (.double (Binary64.ofInt 0)) (min (.double (Binary64.ofInt 1)) a)

/-! ## Conversion -/

/-- The double nearest to an integer, unless it overflows; a double is kept. -/
def toDouble : Number → Except Fault Binary64
  | .int n =>
    match Binary64.ofInt n with
    | .infinite _ => .error .integerTooLarge
    | x => .ok x
  | .double x => .ok x

/-- Whether a number is finite; an integer beyond the doubles is a fault. -/
def isFinite (a : Number) : Except Fault Bool := do
  let x ← a.toDouble
  return x.isFinite

def hasFiniteDouble (a : Number) : Bool :=
  match a.toDouble with
  | .ok x => x.isFinite
  | .error _ => false

/-- The nearest integer, a tie going to the even neighbour. -/
def round : Number → Except Fault Int
  | .int n => .ok n
  | .double (.finite negative m e _) => .ok (nearestEven (Binary64.exact negative m e))
  | .double (.infinite _) => .error .infinityToInteger
  | .double .nan => .error .nanToInteger

/-! ## Arithmetic -/

/-- Integers combine exactly; a double on either side makes the other operand a double. -/
def combine (onInt : Int → Int → Int) (onDouble : Binary64 → Binary64 → Binary64) :
    Number → Number → Except Fault Number
  | .int a, .int b => .ok (.int (onInt a b))
  | a, b => do
    let x ← a.toDouble
    let y ← b.toDouble
    return .double (onDouble x y)

def add : Number → Number → Except Fault Number := combine (· + ·) Binary64.add

def sub : Number → Number → Except Fault Number := combine (· - ·) Binary64.sub

def mul : Number → Number → Except Fault Number := combine (· * ·) Binary64.mul

def intQuotient (a b : Int) : Except Fault Number :=
  if b = 0 then .error .divisionByZero
  else
    match Binary64.ofMagnitude (decide (a < 0) != decide (b < 0)) ((a.natAbs : Rat) / b.natAbs) with
    | .infinite _ => .error .quotientTooLarge
    | x => .ok (.double x)

/-- Quotient. Two integers are divided exactly and rounded once. -/
def div : Number → Number → Except Fault Number
  | .int a, .int b => intQuotient a b
  | a, b => do
    let x ← a.toDouble
    let y ← b.toDouble
    if y.isZero then .error .divisionByZero
    else return .double (x.div y)

def abs : Number → Number
  | .int n => .int n.natAbs
  | .double x => .double x.abs

/-- The part of `q` that is left when whole multiples of `period` are taken away towards zero. -/
def truncatedRest (q : Rat) (period : Nat) : Rat :=
  if q < 0 then -(-q - period * (-q / period).floor) else q - period * (q / period).floor

/-- Remainder on going round a circle of the given length, from `0` up to the length. The rest of a
negative double is first taken towards zero and then lifted by one turn, which may round up to the
whole length. -/
def modulo (a : Number) (period : Nat) : Number :=
  match a with
  | .int n => .int (n % period)
  | .double (.finite negative m e _) =>
    let rest := truncatedRest (Binary64.exact negative m e) period
    if rest < 0 then .double ((Binary64.ofRat rest).add (Binary64.ofInt period))
    else .double (Binary64.ofRat rest)
  | .double _ => .double .nan

end Number

end CssValues
