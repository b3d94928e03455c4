import CssValues.Box
import CssValues.Calc.Expression
import CssValues.Color.Reading
import CssValues.Component.Parts
import CssValues.Percentage

/-!
# Resolving style values

Style values turned into pixels, percentages, edges and colours under a context.
-/

namespace CssValues

inductive Size where
  | pixels (n : Number)
  | percentage (p : Percentage)

namespace Resolver

inductive Refusal where
  | notText
  | blank
  /-- A keyword such as `auto`. -/
  | keyword
  | calculation (why : CalcExpression.Refusal)
  | percentage (body : Text) (why : Percentage.Refusal)
  /-- Where plain pixels are wanted: not a length. -/
  | length (body : Text) (why : Length.Refusal)
  /-- Where a size is wanted: not a length either. -/
  | size (t : Text) (body : Text) (why : Length.Refusal)
  /-- The pixels are beyond the doubles. -/
  | notFinite (t : Text)
  /-- A shorthand of no parts or of more than four. -/
  | partCount (t : Text)
  /-- A part of a shorthand does not resolve. -/
  | part (piece : Text) (t : Text) (why : Refusal)
  | fault (f : Fault)

def component : Text := "css.resolver".toList

def Refusal.notes : Refusal → List Note
  | .calculation why => why.notes
  | .percentage body why => why.notes body
  | .length body why => why.notes body
  | .size t body why =>
    why.notes body ++ [⟨component, "Unresolvable size value: ".toList ++ t.quoted⟩]
  | .notFinite t =>
    [⟨component, "Value does not resolve to a finite pixel size: ".toList ++ t.quoted⟩]
  | .partCount t => [⟨component, "Box shorthand needs 1 to 4 values: ".toList ++ t.quoted⟩]
  | .part piece t why =>
    why.notes ++ [⟨component, "Unresolvable box shorthand component ".toList ++ piece.quoted
      ++ " in ".toList ++ t.quoted⟩]
  | _ => []

/-- The value if there is one, with the notes of the refusal if there is none. -/
def attempt {α : Type} : Except Refusal α → Noted (Option α)
  | .ok a => pure (some a)
  | .error (.fault f) => .ofResult (.error f)
  | .error why => ⟨why.notes, .ok none⟩

/-- The pixels that the text `t` resolves to, if they are finite. -/
def finite (t : Text) (pixels : Except Fault Number) : Except Refusal Number :=
  match pixels with
  | .error f => .error (.fault f)
  | .ok n =>
    match n.isFinite with
    | .error f => .error (.fault f)
    | .ok true => .ok n
    | .ok false => .error (.notFinite t)

/-! ## Pixels -/

def calculation (c : Context) (t : Text) : Except Refusal Number :=
  match CalcExpression.read t with
  | .error why => .error (.calculation why)
  | .ok e => finite t (e.evaluate c)

def pixels (c : Context) (t : Text) : Except Refusal Number :=
  let body := t.trim
  if CalcSource.isValid body then calculation c body
  else
    match Length.read body with
    | .error (.fault f) => .error (.fault f)
    | .error why => .error (.length body why)
    | .ok l => finite t (l.toPixels c)

/-- A single spacing in pixels, at least zero. -/
def spacing (c : Context) (t : Text) : Except Refusal Number :=
  (pixels c t).map (Number.max 0)

/-! ## Sizes -/

/-- A calculation as a size. Of a percentage less a length, only the percentage is kept. -/
def calcSize (c : Context) (t : Text) (body : Text) : Except Refusal Size :=
  match CalcExpression.read body with
  | .error why => .error (.calculation why)
  | .ok e =>
    if e.isPercentageMinusPixels then .ok (.percentage (Percentage.clamp e.left.value))
    else (finite t (e.evaluate c)).map .pixels

def size (c : Context) (t : Text) : Except Refusal Size :=
  let body := t.trim
  if body.isEmpty then .error .blank
  else if CalcSource.isValid body then calcSize c t body
  else if ['%'].isSuffixOf body then
    match Percentage.read body with
    | .error why => .error (.percentage body why)
    | .ok p => .ok (.percentage p)
  else if isNonNumericKeyword body then .error .keyword
  else
    match Length.read body with
    | .error (.fault f) => .error (.fault f)
    | .error why => .error (.size t body why)
    | .ok l => (finite t (l.toPixels c)).map .pixels

/-! ## Box shorthands -/

/-- One part of a box shorthand in pixels. There is no reference length here, so the number of a
percentage is taken as pixels. -/
def partPixels (c : Context) (part : Text) : Except Refusal Number :=
  if ['%'].isSuffixOf part then
    match Percentage.read part with
    | .error why => .error (.percentage part why)
    | .ok p => .ok p.value
  else pixels c part

/-- An edge of the box shorthand `t`, at least zero. -/
def edge (c : Context) (t : Text) (part : Text) : Except Refusal Number :=
  match partPixels c part with
  | .ok n => .ok (Number.max 0 n)
  | .error (.fault f) => .error (.fault f)
  | .error why => .error (.part part t why)

def box (c : Context) (t : Text) : Except Refusal BoxEdges :=
  if Text.isBlankText t then .error .blank
  else
    match shorthandParts t with
    | .error f => .error (.fault f)
    | .ok parts =>
      if parts.length = 0 ∨ 4 < parts.length then .error (.partCount t)
      else
        match parts.mapM (edge c t) with
        | .error why => .error why
        | .ok edges =>
          match BoxEdges.expand? edges with
          | some box => .ok box
          | none => .error (.partCount t)

/-! ## Values of any kind

Only texts resolve. -/

/-- Resolve a value that may be something else than a text. -/
def onText {α : Type} (resolve : Text → Except Refusal α) : Value → Except Refusal α
  | .text t => resolve t
  | _ => .error .notText

def defaultSpacing : Value := .number 0

/-- A single spacing in pixels, at least zero, or the fallback. -/
def spacingOr (c : Context) (fallback : Value) (v : Value) : Noted Value := do
  match ← attempt (onText (spacing c) v) with
  | some n => return .number n
  | none => return fallback

def shown (c : Context) : Text := "ValueResolver(".toList ++ c.shown ++ [')']

end Resolver

/-! ## Colours -/

def Color.attempt (t : Text) : Noted (Option Color) :=
  match Color.read t with
  | .ok c => pure (some c)
  | .error (.fault f) => .ofResult (.error f)
  | .error why => ⟨why.notes t, .ok none⟩

def Color.attemptValue : Value → Noted (Option Color)
  | .text t => Color.attempt t
  | _ => pure none

end CssValues
