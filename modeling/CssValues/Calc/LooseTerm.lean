import CssValues.Calc.Expression
import CssValues.Value.Arithmetic

/-!
# Calculations made by callers

A caller may make a term of any value. It is shown and compared as it is; only when it is written as
a style value or evaluated does it turn out whether the value is fit for that.
-/

namespace CssValues

/-- A term with a value of any kind. -/
structure LooseTerm where
  value : Value
  unit : TermUnit

namespace LooseTerm

def ofTerm (t : Term) : LooseTerm := ⟨.number t.value, t.unit⟩

def ofParts (v unit : Value) : Except Error LooseTerm :=
  match unit with
  | .text t =>
    match TermUnit.lookup? t with
    | some u => .ok ⟨v, u⟩
    | none => .error (.unsupportedTermUnit unit)
  | _ => .error (.unsupportedTermUnit unit)

def isPercentage (t : LooseTerm) : Bool := t.unit = .percent

/-- The term in pixels. There is no reference length here, so a percentage counts as nothing. -/
def toPixels (t : LooseTerm) (c : Context) : Except Error Value :=
  match t.unit with
  | .percent => .ok (.number 0)
  | .length u => do
    let product ← t.value.mul (u.factor c)
    match u.divisor? with
    | some d => product.div d
    | none => return product

def css (t : LooseTerm) : Except Error Text := do
  return (← t.value.plain) ++ t.unit.name

def shown (t : LooseTerm) : Text :=
  "CalcTerm(".toList ++ t.value.shown ++ ", ".toList ++ t.unit.name.quoted ++ [')']

def equals (s t : LooseTerm) : Bool := s.value.equals t.value && s.unit = t.unit

theorem toPixels_ofTerm (t : Term) (c : Context) :
    (ofTerm t).toPixels c = orFault ((t.toPixels c).map .number) := by
  obtain ⟨n, u⟩ := t
  cases u with
  | percent => rfl
  | length u =>
    cases h : n.mul (u.factor c) with
    | error f =>
      simp [ofTerm, toPixels, Term.toPixels, LengthUnit.toPixels, Value.mul_number, h, bind,
        Except.bind, Except.map]
    | ok product =>
      cases hd : u.divisor? <;>
        simp [ofTerm, toPixels, Term.toPixels, LengthUnit.toPixels, Value.mul_number,
          Value.div_number, h, hd, bind, Except.bind, Except.map, pure, Except.pure]

theorem css_ofTerm (t : Term) : (ofTerm t).css = orFault t.css := by
  cases h : t.value.plain <;>
    simp [ofTerm, css, Term.css, Value.plain_number, h, bind, Except.bind, pure, Except.pure]

end LooseTerm

/-- The sum or difference of two loose terms. -/
structure LooseExpression where
  left : LooseTerm
  operator : CalcOperator
  right : LooseTerm

namespace LooseExpression

def ofExpression (e : CalcExpression) : LooseExpression :=
  ⟨.ofTerm e.left, e.operator, .ofTerm e.right⟩

def evaluate (e : LooseExpression) (c : Context) : Except Error Value := do
  let x ← e.left.toPixels c
  let y ← e.right.toPixels c
  match e.operator with
  | .plus => x.add y
  | .minus => x.sub y

def toLength (e : LooseExpression) (c : Context) : Except Error Length := do
  Length.ofValue (← e.evaluate c) .px

def isPercentageMinusPixels (e : LooseExpression) : Bool :=
  e.operator = .minus && e.left.isPercentage && !e.right.isPercentage

def css (e : LooseExpression) : Except Error Text := do
  let left ← e.left.css
  let right ← e.right.css
  return CalcSource.opening ++ left ++ ' ' :: e.operator.symbol ++ ' ' :: right ++ [')']

def shown (e : LooseExpression) : Text :=
  "CalcExpression(".toList ++ e.left.shown ++ ", ".toList ++ e.operator.symbol.quoted
    ++ ", ".toList ++ e.right.shown ++ [')']

end LooseExpression

end CssValues
