import CssValues.Context
import CssValues.Text.Lowercase

/-!
# Units of length

The units of length and their sizes in pixels. Absolute units have fixed sizes, the others depend on
a context.
-/

namespace CssValues

inductive LengthUnit where
  | px
  | pt
  | pc
  | inch
  | cm
  | mm
  | em
  | rem
  | vw
  | vh
  | vmin
  | vmax
  | ch
  | ex
  deriving DecidableEq

namespace LengthUnit

def all : List LengthUnit := [px, pt, pc, inch, cm, mm, em, rem, vw, vh, vmin, vmax, ch, ex]

def name : LengthUnit → Text
  | px => ['p', 'x']
  | pt => ['p', 't']
  | pc => ['p', 'c']
  | inch => ['i', 'n']
  | cm => ['c', 'm']
  | mm => ['m', 'm']
  | em => ['e', 'm']
  | rem => ['r', 'e', 'm']
  | vw => ['v', 'w']
  | vh => ['v', 'h']
  | vmin => ['v', 'm', 'i', 'n']
  | vmax => ['v', 'm', 'a', 'x']
  | ch => ['c', 'h']
  | ex => ['e', 'x']

def lookup? (t : Text) : Option LengthUnit :=
  let lowered := Text.lower t
  all.find? (fun u => u.name = lowered)

/-- The name in capitals. -/
def label (u : LengthUnit) : Text := u.name.map Char.toUpper

def ofLabel? (t : Text) : Option LengthUnit := all.find? (fun u => u.label = t)

def isAbsolute : LengthUnit → Bool
  | px | pt | pc | inch | cm | mm => true
  | _ => false

def isFontRelative : LengthUnit → Bool
  | em | rem | ch | ex => true
  | _ => false

def isViewport : LengthUnit → Bool
  | vw | vh | vmin | vmax => true
  | _ => false

/-- Pixels in a point: a 72nd part of 96. -/
def pointSize : Number := .double (Binary64.ofRat (96 / 72))

/-- Pixels in a centimetre: 96 over the double nearest to 2.54. -/
def centimetreSize : Number := .double ((Binary64.ofInt 96).div (Binary64.ofRat (254 / 100)))

/-- Pixels in a millimetre: 96 over the double nearest to 25.4. -/
def millimetreSize : Number := .double ((Binary64.ofInt 96).div (Binary64.ofRat (254 / 10)))

/-- What a number with the given unit is multiplied by. Without font metrics, `em` and its half, `ch`
and `ex`, go by the font size of the context. -/
def factor (u : LengthUnit) (c : Context) : Number :=
  match u with
  | px => 1
  | pt => pointSize
  | pc => 16
  | inch => 96
  | cm => centimetreSize
  | mm => millimetreSize
  | em | rem | ch | ex => c.fontSize.value
  | vw => c.viewportWidth.value
  | vh => c.viewportHeight.value
  | vmin => c.viewportWidth.value.min c.viewportHeight.value
  | vmax => c.viewportWidth.value.max c.viewportHeight.value

def divisor? : LengthUnit → Option Number
  | ch | ex => some 2
  | vw | vh | vmin | vmax => some 100
  | _ => none

def toPixels (value : Number) (u : LengthUnit) (c : Context) : Except Fault Number := do
  let product ← value.mul (u.factor c)
  match u.divisor? with
  | some d => product.div d
  | none => return product

end LengthUnit

/-- The keywords that are accepted where a length is, but stand for no number. -/
def nonNumericKeywords : List Text :=
  ["auto".toList, "inherit".toList, "initial".toList, "unset".toList]

def isNonNumericKeyword (t : Text) : Bool := nonNumericKeywords.contains (Text.lower t)

end CssValues
