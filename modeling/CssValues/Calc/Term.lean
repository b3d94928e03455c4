import CssValues.Unit

/-!
# Terms of a calculation

A term is a number with a unit of length or a percent sign.
-/

namespace CssValues

/-- What a term is counted in. -/
inductive TermUnit where
  | length (u : LengthUnit)
  | percent
  deriving DecidableEq

namespace TermUnit

def name : TermUnit → Text
  | .length u => u.name
  | .percent => ['%']

/-- The unit of a name in any case. -/
def lookup? (t : Text) : Option TermUnit :=
  if Text.lower t = ['%'] then some .percent else (LengthUnit.lookup? t).map .length

end TermUnit

structure Term where
  value : Number
  unit : TermUnit
  deriving DecidableEq

namespace Term

def ofParts (n : Number) (unit : Value) : Except Error Term :=
  match unit with
  | .text t =>
    match TermUnit.lookup? t with
    | some u => .ok ⟨n, u⟩
    | none => .error (.unsupportedTermUnit unit)
  | _ => .error (.unsupportedTermUnit unit)

def isPercentage (t : Term) : Bool := t.unit = .percent

/-- The term in pixels. There is no reference length here, so a percentage counts as nothing. -/
def toPixels (t : Term) (c : Context) : Except Fault Number :=
  match t.unit with
  | .percent => .ok 0
  | .length u => u.toPixels t.value c

def css (t : Term) : Except Fault Text := do
  return (← t.value.plain) ++ t.unit.name

def shown (t : Term) : Text :=
  "CalcTerm(".toList ++ t.value.text ++ ", ".toList ++ t.unit.name.quoted ++ [')']

def equals (s t : Term) : Bool := s.value.equals t.value && s.unit = t.unit

end Term

end CssValues
