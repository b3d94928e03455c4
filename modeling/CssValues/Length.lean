import CssValues.Note
import CssValues.Number.Reading
import CssValues.Unit

/-!
# Lengths

A length is a finite number with a unit. `Length.read` reads one from a style value and says in a
`Refusal` why a text is none.
-/

namespace CssValues

/-- A finite number with a unit. -/
structure Length where
  value : Number
  unit : LengthUnit
  finite : value.hasFiniteDouble = true

namespace Length

/-! ## From parts -/

def ofNumber (n : Number) (u : LengthUnit) : Except Error Length :=
  match n.toDouble with
  | .error f => .error (.fault f)
  | .ok _ =>
    if h : n.hasFiniteDouble = true then .ok ⟨n, u, h⟩
    else .error (.lengthNotFinite (.number n))

def ofValue (v : Value) (u : LengthUnit) : Except Error Length :=
  match v with
  | .number n => ofNumber n u
  | _ => .error (.lengthNotFinite v)

/-- The length of a value and the name of a unit; the value is checked first. -/
def ofParts (v : Value) (unit : Value) : Except Error Length := do
  let length ← ofValue v .px
  match unit with
  | .text t =>
    match LengthUnit.lookup? t with
    | some u => return { length with unit := u }
    | none => throw (.unknownUnit unit)
  | _ => throw (.unknownUnit unit)

/-! ## Measures -/

def toPixels (l : Length) (c : Context) : Except Fault Number := l.unit.toPixels l.value c

def isZero (l : Length) : Bool := l.value.equals 0

/-! ## Reading -/

/-- Why a text is not read as a length. -/
inductive Refusal where
  | notText
  | blank
  /-- A keyword such as `auto`. -/
  | keyword
  /-- Not a number with letters behind it. -/
  | malformed
  /-- The number is beyond the doubles. -/
  | outOfRange
  | unknownUnit
  /-- The length in pixels is beyond the doubles in the default context. -/
  | overflow
  | fault (f : Fault)

def Refusal.fault? : Refusal → Option Fault
  | .fault f => some f
  | _ => none

def Refusal.notes (t : Text) : Refusal → List Note
  | .malformed => [⟨"css.length".toList, "Not a length value: ".toList ++ t.quoted⟩]
  | .unknownUnit => [⟨"css.length".toList, "Unknown length unit in ".toList ++ t.quoted⟩]
  | .overflow =>
    [⟨"css.length".toList, "Length overflows when converted to pixels: ".toList ++ t.quoted⟩]
  | _ => []

/-- The length of a double and a unit, unless it overflows in the default context. -/
def checked (l : Length) : Except Refusal Length :=
  match l.toPixels .default with
  | .error f => .error (.fault f)
  | .ok pixels =>
    match pixels.isFinite with
    | .error f => .error (.fault f)
    | .ok true => .ok l
    | .ok false => .error .overflow

/-- Read a number with the name of a unit, in any case, right behind it. A number alone is in
pixels. -/
def read (t : Text) : Except Refusal Length :=
  let body := t.trim
  if body.isEmpty then .error .blank
  else if isNonNumericKeyword body then .error .keyword
  else
    match splitNumber? body with
    | none => .error .malformed
    | some (number, unitName) =>
      if unitName.all Text.isLetter then
        match h : Binary64.readFinite? number with
        | none => .error .outOfRange
        | some x =>
          have finite : (Number.double x).hasFiniteDouble = true :=
            Binary64.isFinite_of_readFinite? h
          if unitName.isEmpty then .ok ⟨.double x, .px, finite⟩
          else
            match LengthUnit.lookup? unitName with
            | none => .error .unknownUnit
            | some u => checked ⟨.double x, u, finite⟩
      else .error .malformed

def readValue : Value → Except Refusal Length
  | .text t => read t
  | _ => .error .notText

/-! ## Writing -/

def css (l : Length) : Except Fault Text := do
  return (← l.value.plain) ++ l.unit.name

def shown (l : Length) : Text :=
  "LengthValue(".toList ++ l.value.text ++ ", ".toList ++ l.unit.name.quoted ++ [')']

def equals (l m : Length) : Bool := l.value.equals m.value && l.unit = m.unit

end Length

end CssValues
