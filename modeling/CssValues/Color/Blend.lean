import CssValues.Color.Basic

/-!
# Blending colours
-/

namespace CssValues.Color

/-- A channel between two others, at the share `w` of the second. -/
def mixChannel (w : Number) (a b : Channel) : Except Fault Number := do
  let rest ← (1 : Number).sub w
  (← a.toNumber.mul rest).add (← b.toNumber.mul w)

/-- The colour between two colours, at the share `weight` of the second. -/
def mix (c d : Color) (weight : Number) : Except Fault Color := do
  let w := weight.unitShare
  ofNumbers (← mixChannel w c.red d.red) (← mixChannel w c.green d.green)
    (← mixChannel w c.blue d.blue)

def mixEven (c d : Color) : Except Fault Color := c.mix d (.double (Binary64.ofRat (1 / 2)))

/-- The colour of what each channel lacks of the upper end. -/
def invert (c : Color) : Except Fault Color := do
  ofNumbers (← (255 : Number).sub c.red.toNumber) (← (255 : Number).sub c.green.toNumber)
    (← (255 : Number).sub c.blue.toNumber)

/-- The grey of the same brightness. -/
def grayscale (c : Color) : Except Fault Color := do
  let r ← c.red.toNumber.mul (.double (Binary64.ofRat (299 / 1000)))
  let g ← c.green.toNumber.mul (.double (Binary64.ofRat (587 / 1000)))
  let b ← c.blue.toNumber.mul (.double (Binary64.ofRat (114 / 1000)))
  let level ← (← r.add g).add b
  ofNumbers level level level

end CssValues.Color
