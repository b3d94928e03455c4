import CssValues.Calc.Source
import CssValues.Calc.Term
import CssValues.Length

/-!
# Calculations

A calculation is the sum or the difference of two terms, each written without a sign. Longer chains,
other operators and parentheses inside are refused as a whole.
-/

namespace CssValues

inductive CalcOperator where
  | plus
  | minus
  deriving DecidableEq

namespace CalcOperator

def symbol : CalcOperator → Text
  | .plus => ['+']
  | .minus => ['-']

def ofSymbol (t : Text) : Except Error CalcOperator :=
  if t = ['+'] then .ok .plus
  else if t = ['-'] then .ok .minus
  else .error (.unknownOperator t)

def apply : CalcOperator → Number → Number → Except Fault Number
  | .plus => Number.add
  | .minus => Number.sub

end CalcOperator

structure CalcExpression where
  left : Term
  operator : CalcOperator
  right : Term
  deriving DecidableEq

namespace CalcExpression

/-! ## Grammar -/

/-- A term as written: a number without sign, and letters or a percent sign right behind it. -/
structure Operand where
  number : Text
  unitName : Text

/-- The unit at the front of what follows a number. -/
def splitUnit : Text → Text × Text
  | '%' :: rest => (['%'], rest)
  | t => (t.takeWhile Text.isLetter, t.dropWhile Text.isLetter)

/-- The ways to take a term off the front of a text, the longest number first. The other way leaves
out the exponent, whose letter may as well be a unit. -/
def operands (t : Text) : List (Operand × Text) :=
  match splitMantissa? t with
  | none => []
  | some (mantissa, rest) =>
    let exponentPart := splitExponent Text.isDigit rest
    let whole := splitUnit exponentPart.2
    let short := splitUnit rest
    let longest : Operand × Text := (⟨mantissa ++ exponentPart.1, whole.1⟩, whole.2)
    if exponentPart.1.isEmpty then [longest] else [longest, (⟨mantissa, short.1⟩, short.2)]

/-- An operator between blanks, and what follows. -/
def splitOperator? (t : Text) : Option (CalcOperator × Text) :=
  match t.dropWhile Text.isBlank with
  | '+' :: rest => some (.plus, rest.dropWhile Text.isBlank)
  | '-' :: rest => some (.minus, rest.dropWhile Text.isBlank)
  | _ => none

/-- Whether nothing but one line break is left. -/
def atEnd (t : Text) : Bool := t = [] || t = ['\n']

def lastOperand? (t : Text) : Option Operand :=
  ((operands t).find? (fun way => atEnd way.2)).map Prod.fst

/-- The two terms and the operator of a body. -/
def split? (content : Text) : Option (Operand × CalcOperator × Operand) :=
  (operands content).findSome? fun (left, rest) =>
    (splitOperator? rest).bind fun (operator, rest) =>
      (lastOperand? rest).map fun right => (left, operator, right)

/-- The unit of an operand; without a name it is in pixels. -/
def Operand.unit? (o : Operand) : Option TermUnit :=
  if o.unitName.isEmpty then some (.length .px) else TermUnit.lookup? o.unitName

/-! ## Reading -/

/-- Why a text is not read as a calculation. -/
inductive Refusal where
  /-- Not of the shape `calc(…)`. -/
  | notCalc
  /-- The body is not a sum or difference of two terms. -/
  | unsupported (content : Text)
  /-- A number is beyond the doubles. -/
  | outOfRange
  | unknownUnit (content : Text)

def Refusal.notes : Refusal → List Note
  | .unsupported content =>
    [⟨"css.calc".toList, "Unsupported calc() body: ".toList ++ content.quoted⟩]
  | .unknownUnit content =>
    [⟨"css.calc".toList, "Unknown unit in calc() body: ".toList ++ content.quoted⟩]
  | _ => []

def ofSource (s : CalcSource) : Except Refusal CalcExpression :=
  match split? s.content with
  | none => .error (.unsupported s.content)
  | some (left, operator, right) =>
    match Binary64.readFinite? left.number, Binary64.readFinite? right.number with
    | some x, some y =>
      match left.unit?, right.unit? with
      | some u, some v => .ok ⟨⟨.double x, u⟩, operator, ⟨.double y, v⟩⟩
      | _, _ => .error (.unknownUnit s.content)
    | _, _ => .error .outOfRange

def read (t : Text) : Except Refusal CalcExpression :=
  match CalcSource.ofText? t with
  | none => .error .notCalc
  | some s => ofSource s

def readValue : Value → Except Refusal CalcExpression
  | .text t => read t
  | _ => .error .notCalc

/-! ## Evaluation -/

def evaluate (e : CalcExpression) (c : Context) : Except Fault Number := do
  let x ← e.left.toPixels c
  let y ← e.right.toPixels c
  e.operator.apply x y

def toLength (e : CalcExpression) (c : Context) : Except Error Length := do
  Length.ofNumber (← orFault (e.evaluate c)) .px

/-- Whether a length is taken from a percentage, as in `calc(100% - 40px)`. -/
def isPercentageMinusPixels (e : CalcExpression) : Bool :=
  e.operator = .minus && e.left.isPercentage && !e.right.isPercentage

/-! ## Writing -/

def css (e : CalcExpression) : Except Fault Text := do
  let left ← e.left.css
  let right ← e.right.css
  return CalcSource.opening ++ left ++ ' ' :: e.operator.symbol ++ ' ' :: right ++ [')']

def shown (e : CalcExpression) : Text :=
  "CalcExpression(".toList ++ e.left.shown ++ ", ".toList ++ e.operator.symbol.quoted
    ++ ", ".toList ++ e.right.shown ++ [')']

def equals (e f : CalcExpression) : Bool :=
  e.left.equals f.left && e.operator = f.operator && e.right.equals f.right

end CalcExpression

end CssValues
