import CssValues.Error
import CssValues.Number.Reading

/-!
# Arithmetic on values of any kind

What becomes of a calculation whose operands were never checked to be numbers. Truth values count
as numbers, texts that read as numbers can be written as such, and lists and texts can be repeated
and joined. Everything else is refused.
-/

namespace CssValues

namespace Value

/-! ## As numbers -/

def toDouble : Value → Except Error Binary64
  | .number n => orFault n.toDouble
  | .bool b => .ok (Binary64.ofInt b.toNat)
  | .text t =>
    match Binary64.read? t with
    | some x => .ok x
    | none => .error (.notNumeral t)
  | v => .error (.notNumber v.typeName)

/-- The integer that a text stands for: a sign and digits, with white space around them and
underscores between digits. Too many digits are refused before what follows them is looked at. -/
def readInteger (t : Text) : Except Error Int := do
  let inDigits (c : Char) : Bool := Text.isDigit c || c = '_'
  let signPart := splitSign (Text.trimWhere Text.isWhiteSpace t)
  match dropUnderscores? false (signPart.2.takeWhile inDigits) with
  | none => .error (.notIntegerNumeral t)
  | some digits => do
    let n ← orFault (readDigits digits)
    if digits.isEmpty || !(signPart.2.dropWhile inDigits).isEmpty then
      .error (.notIntegerNumeral t)
    else return if signPart.1 = ['-'] then -(n : Int) else n

/-- A value in the form of style values. An integral text keeps its digits, so it has to be written
as an integer. -/
def plain (v : Value) : Except Error Text := do
  let x ← v.toDouble
  match v, x.toRat? with
  | .number n, _ => orFault n.plain
  | .text t, some q => if q.den = 1 then return Text.ofInt (← readInteger t) else return x.plain
  | _, _ => return x.plain

/-! ## Operations -/

/-- A list or text taken `n` times, not at all for a negative `n`. -/
def repeated {α : Type} (items : List α) (n : Int) : List α :=
  (List.replicate n.toNat items).flatten

def mul (v : Value) (n : Number) : Except Error Value :=
  match v, n with
  | .number m, n => orFault ((m.mul n).map .number)
  | .bool b, n => orFault (((Number.int b.toNat).mul n).map .number)
  | .text t, .int n => .ok (.text (repeated t n))
  | .array items, .int n => .ok (.array (repeated items n))
  | .text _, n => .error (.notRepeatable (typeName (.number n)))
  | .array _, n => .error (.notRepeatable (typeName (.number n)))
  | v, n => .error (.noOperation '*' v.typeName (typeName (.number n)))

def div (v : Value) (n : Number) : Except Error Value :=
  match v.numeric? with
  | some m => orFault ((m.div n).map .number)
  | none => .error (.noOperation '/' v.typeName (typeName (.number n)))

/-- Sum. Lists and texts are joined with their like. -/
def add (v w : Value) : Except Error Value :=
  match v.numeric?, w.numeric? with
  | some m, some n => orFault ((m.add n).map .number)
  | _, _ =>
    match v, w with
    | .text s, .text t => .ok (.text (s ++ t))
    | .array xs, .array ys => .ok (.array (xs ++ ys))
    | .text _, w => .error (.notJoinable v.typeName w.typeName)
    | .array _, w => .error (.notJoinable v.typeName w.typeName)
    | v, w => .error (.noOperation '+' v.typeName w.typeName)

/-- Difference, of numbers only. -/
def sub (v w : Value) : Except Error Value :=
  match v.numeric?, w.numeric? with
  | some m, some n => orFault ((m.sub n).map .number)
  | _, _ => .error (.noOperation '-' v.typeName w.typeName)

/-! ## On numbers -/

theorem plain_number (n : Number) : plain (.number n) = orFault n.plain := by
  cases n with
  | int m =>
    cases h : Number.toDouble (.int m) <;>
      simp [plain, toDouble, h, Number.plain, bind, Except.bind]
  | double x => rfl

theorem mul_number (m n : Number) : mul (.number m) n = orFault ((m.mul n).map .number) := rfl

theorem div_number (m n : Number) : div (.number m) n = orFault ((m.div n).map .number) := rfl

theorem add_number (m n : Number) :
    add (.number m) (.number n) = orFault ((m.add n).map .number) := rfl

theorem sub_number (m n : Number) :
    sub (.number m) (.number n) = orFault ((m.sub n).map .number) := rfl

end Value

end CssValues
