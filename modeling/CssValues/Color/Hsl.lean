import CssValues.Color.Basic

/-!
# Hue, saturation and lightness
-/

namespace CssValues

/-- A colour by its hue in degrees and its saturation and lightness in percent. -/
structure Hsl where
  hue : Int
  saturation : Int
  lightness : Int
  deriving DecidableEq

namespace Color

/-- A number kept within a percentage from 0 to 100, as a fraction. -/
def percentFraction (n : Number) : Except Fault Number := (Number.max 0 (Number.min 100 n)).div 100

/-- One channel of a colour: between the levels `p` and `q`, at the place `t` on the colour circle,
which may be one turn off. -/
def hueLevel (p q t : Number) : Except Fault Number := do
  let t ← if t.lt 0 then t.add 1 else .ok t
  let t ← if (1 : Number).lt t then t.sub 1 else .ok t
  if t.lt (← (1 : Number).div 6) then
    p.add (← (← (← q.sub p).mul 6).mul t)
  else if t.lt (← (1 : Number).div 2) then return q
  else if t.lt (← (2 : Number).div 3) then
    p.add (← (← (← q.sub p).mul (← (← (2 : Number).div 3).sub t)).mul 6)
  else return p

/-- The level that a colour of the given lightness and saturation does not exceed. -/
def upperLevel (saturation lightness : Number) : Except Fault Number := do
  if lightness.lt (.double (Binary64.ofRat (1 / 2))) then
    lightness.mul (← (1 : Number).add saturation)
  else (← lightness.add saturation).sub (← lightness.mul saturation)

/-- The colour nearest to a hue in degrees, which may run round the circle, and a saturation and a
lightness in percent. -/
def ofHsl (h s l : Number) : Except Fault Color := do
  let hue ← (h.modulo 360).div 360
  let saturation ← percentFraction s
  let lightness ← percentFraction l
  if saturation.equals 0 then
    let level ← lightness.mul 255
    ofNumbers level level level
  else
    let q ← upperLevel saturation lightness
    let p ← (← (2 : Number).mul lightness).sub q
    let third ← (1 : Number).div 3
    let r ← hueLevel p q (← hue.add third)
    let g ← hueLevel p q hue
    let b ← hueLevel p q (← hue.sub third)
    ofNumbers (← r.mul 255) (← g.mul 255) (← b.mul 255)

/-- The place on the colour circle, as a fraction of a turn, of a colour whose channels are not all
equal. -/
def hueFraction (r g b high delta : Number) : Except Fault Number := do
  if high.equals r then
    (← (← (← g.sub b).div delta).add (if g.lt b then 6 else 0)).div 6
  else if high.equals g then (← (← (← b.sub r).div delta).add 2).div 6
  else (← (← (← r.sub g).div delta).add 4).div 6

/-- Hue, saturation and lightness, each rounded. A grey has neither hue nor saturation. -/
def toHsl (c : Color) : Except Fault Hsl := do
  let r ← c.red.toFraction
  let g ← c.green.toFraction
  let b ← c.blue.toFraction
  let high := (r.max g).max b
  let low := (r.min g).min b
  let delta ← high.sub low
  let lightness ← (← high.add low).div 2
  if delta.equals 0 then return ⟨0, 0, ← (← lightness.mul 100).round⟩
  else
    let distance := (← (← (2 : Number).mul lightness).sub 1).abs
    let saturation ← delta.div (← (1 : Number).sub distance)
    let hue ← hueFraction r g b high delta
    return ⟨← (← hue.mul 360).round, ← (← saturation.mul 100).round,
      ← (← lightness.mul 100).round⟩

/-- The colour with `amount` percentage points more lightness. -/
def lighten (c : Color) (amount : Number) : Except Fault Color := do
  let hsl ← c.toHsl
  ofHsl (.int hsl.hue) (.int hsl.saturation)
    (Number.min 100 (← (Number.int hsl.lightness).add amount))

def darken (c : Color) (amount : Number) : Except Fault Color := do
  let hsl ← c.toHsl
  ofHsl (.int hsl.hue) (.int hsl.saturation)
    (Number.max 0 (← (Number.int hsl.lightness).sub amount))

end Color

end CssValues
