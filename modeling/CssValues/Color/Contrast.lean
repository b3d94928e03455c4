import CssValues.Color.Basic
import CssValues.Number.Power

/-!
# Luminance and contrast
-/

namespace CssValues.Color

/-- The double nearest to a rational number. -/
def coefficient (q : Rat) : Number := .double (Binary64.ofRat q)

def gammaPower : Number → Number
  | .double (.finite negative m e _) =>
    match (Binary64.ofRat (24 / 10)).toRat? with
    | some exponent => .double (Power.ofPositive (Binary64.exact negative m e) exponent)
    | none => .double .nan
  | n => n

/-- The light that a channel gives. -/
def linear (c : Channel) : Except Fault Number := do
  let level ← c.toFraction
  if level.le (coefficient (3928 / 100000)) then level.div (coefficient (1292 / 100))
  else
    return gammaPower
      (← (← level.add (coefficient (55 / 1000))).div (coefficient (1055 / 1000)))

/-- Relative luminance, from 0 to 1. -/
def luminance (c : Color) : Except Fault Number := do
  let r ← (coefficient (2126 / 10000)).mul (← linear c.red)
  let g ← (coefficient (7152 / 10000)).mul (← linear c.green)
  let b ← (coefficient (722 / 10000)).mul (← linear c.blue)
  (← r.add g).add b

/-- The contrast of two colours, from 1 to 21. -/
def contrast (c d : Color) : Except Fault Number := do
  let x ← c.luminance
  let y ← d.luminance
  let offset := coefficient (5 / 100)
  (← (x.max y).add offset).div (← (x.min y).add offset)

end CssValues.Color
