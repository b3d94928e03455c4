import CssValues.Error
import CssValues.Note
import CssValues.Number.Reading

/-!
# Percentages

A percentage is a number that is at least zero; what it is a share of is supplied later.
-/

namespace CssValues

theorem Number.le_max_zero (n : Number) : Number.le 0 (Number.max 0 n) = true := by
  unfold Number.max
  split
  · next h => simp [Number.le, h]
  · decide +kernel

/-- A number that is at least zero, in hundredths of a reference length. -/
structure Percentage where
  value : Number
  nonneg : Number.le 0 value = true

namespace Percentage

/-- The percentage of a number; a negative one counts as zero. -/
def clamp (n : Number) : Percentage := ⟨Number.max 0 n, Number.le_max_zero n⟩

/-- The percentage of a value. Any number will do, NaN apart. -/
def ofValue (v : Value) : Except Error Percentage :=
  match v with
  | .number n =>
    match n.toDouble with
    | .error f => .error (.fault f)
    | .ok x => if x.isNaN then .error (.percentageNotNumber v) else .ok (clamp n)
  | _ => .error (.percentageNotNumber v)

/-! ## Measures -/

def toFraction (p : Percentage) : Except Fault Number := p.value.div 100

def toPixels (p : Percentage) (reference : Number) : Except Fault Number := do
  (← p.toFraction).mul reference

def isZero (p : Percentage) : Bool := p.value.equals 0

def isFull (p : Percentage) : Bool := p.value.equals 100

def toEntries (p : Percentage) : Entries Value :=
  [("value".toList, .number p.value), ("unit".toList, .text ['%'])]

/-! ## Reading -/

inductive Refusal where
  | notText
  /-- Not a number with a percent sign behind it. -/
  | malformed
  /-- The number is beyond the doubles. -/
  | outOfRange

def Refusal.notes (t : Text) : Refusal → List Note
  | .outOfRange => [⟨"css.percentage".toList, "Percentage out of range: ".toList ++ t.quoted⟩]
  | _ => []

/-- Read a number with a percent sign right behind it. -/
def read (t : Text) : Except Refusal Percentage :=
  match splitNumber? t.trim with
  | some (number, ['%']) =>
    match Binary64.readFinite? number with
    | none => .error .outOfRange
    | some x => .ok (clamp (.double x))
  | _ => .error .malformed

def readValue : Value → Except Refusal Percentage
  | .text t => read t
  | _ => .error .notText

/-! ## Writing -/

def css (p : Percentage) : Except Fault Text := do
  return (← p.value.plain) ++ ['%']

def shown (p : Percentage) : Text := "PercentageValue(".toList ++ p.value.text ++ [')']

def equals (p q : Percentage) : Bool := p.value.equals q.value

end Percentage

end CssValues
