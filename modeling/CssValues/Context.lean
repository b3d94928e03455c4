import CssValues.Error

/-!
# Conversion contexts

The viewport and font parameters that relative units are resolved against. Every parameter is a
`Dimension`, a finite positive number, so a context can be used without further checks.
-/

namespace CssValues

def Number.isDimension (n : Number) : Bool := n.hasFiniteDouble && Number.lt 0 n

structure Dimension where
  value : Number
  isDimension : value.isDimension = true

/-- Admit a value as the parameter of the given name. -/
def Dimension.ofValue (name : Text) (v : Value) : Except Error Dimension :=
  match v with
  | .number n =>
    match n.toDouble with
    | .error f => .error (.fault f)
    | .ok _ =>
      if h : n.isDimension = true then .ok ⟨n, h⟩ else .error (.dimensionNotPositive name v)
  | _ => .error (.dimensionNotNumber name v)

/-- Viewport and font parameters, in pixels. -/
structure Context where
  viewportWidth : Dimension
  viewportHeight : Dimension
  fontSize : Dimension

namespace Context

def viewportWidthName : Text := "viewport_width".toList

def viewportHeightName : Text := "viewport_height".toList

def fontSizeName : Text := "font_size".toList

def default : Context where
  viewportWidth := ⟨1920, by decide +kernel⟩
  viewportHeight := ⟨1080, by decide +kernel⟩
  fontSize := ⟨16, by decide +kernel⟩

instance : Inhabited Context := ⟨default⟩

/-- A context of three values, checked in this order. -/
def ofValues (width height font : Value) : Except Error Context := do
  let width ← Dimension.ofValue viewportWidthName width
  let height ← Dimension.ofValue viewportHeightName height
  let font ← Dimension.ofValue fontSizeName font
  return ⟨width, height, font⟩

/-- A context of named values; parameters that are not named have their default. -/
def ofEntries (entries : Entries Value) : Except Error Context :=
  ofValues ((entries.get? viewportWidthName).getD (.number 1920))
    ((entries.get? viewportHeightName).getD (.number 1080))
    ((entries.get? fontSizeName).getD (.number 16))

/-- The names among the keys that are not parameters of a context. -/
def unknownNames (entries : Entries Value) : List Text :=
  entries.keys.filter fun name =>
    !(name = viewportWidthName || name = viewportHeightName || name = fontSizeName)

def replace (c : Context) (changes : Entries Value) : Except Error Context :=
  if (unknownNames changes).isEmpty then
    ofValues ((changes.get? viewportWidthName).getD (.number c.viewportWidth.value))
      ((changes.get? viewportHeightName).getD (.number c.viewportHeight.value))
      ((changes.get? fontSizeName).getD (.number c.fontSize.value))
  else .error (.unknownParameters (unknownNames changes))

/-- Equality of all parameters as numbers. -/
def equals (c d : Context) : Bool :=
  c.viewportWidth.value.equals d.viewportWidth.value
    && c.viewportHeight.value.equals d.viewportHeight.value
    && c.fontSize.value.equals d.fontSize.value

def shown (c : Context) : Text :=
  "ConversionContext(viewport_width=".toList ++ c.viewportWidth.value.text
    ++ ", viewport_height=".toList ++ c.viewportHeight.value.text
    ++ ", font_size=".toList ++ c.fontSize.value.text ++ [')']

end Context

end CssValues
