import CssValues.Error

/-!
# Colours

A colour is three channels from 0 to 255. There is no transparency.
-/

namespace CssValues

/-- One of the 256 levels of a channel. -/
abbrev Channel := Fin 256

namespace Channel

/-- The channel of an integer; one beyond an end counts as that end. -/
def ofInt (n : Int) : Channel := ⟨Nat.min n.toNat 255, Nat.lt_succ_of_le (Nat.min_le_right _ _)⟩

/-- The channel nearest to a number. NaN counts as the upper end. -/
def ofNumber (n : Number) : Except Fault Channel := do
  return ofInt (← (Number.max 0 (Number.min 255 n)).round)

def toNumber (c : Channel) : Number := .int c.val

def toFraction (c : Channel) : Except Fault Number := c.toNumber.div 255

end Channel

structure Color where
  red : Channel
  green : Channel
  blue : Channel
  deriving DecidableEq

namespace Color

def black : Color := ⟨0, 0, 0⟩

def white : Color := ⟨255, 255, 255⟩

instance : Inhabited Color := ⟨black⟩

def ofLevels (r g b : Nat) : Color := ⟨.ofInt r, .ofInt g, .ofInt b⟩

def ofNumbers (r g b : Number) : Except Fault Color := do
  let red ← Channel.ofNumber r
  let green ← Channel.ofNumber g
  let blue ← Channel.ofNumber b
  return ⟨red, green, blue⟩

def channelIn (channels : Entries Number) (name : Text) : Except Error Number :=
  match channels.get? name with
  | some n => .ok n
  | none => .error (.missingChannel name)

def ofEntries (channels : Entries Number) : Except Error Color := do
  let r ← channelIn channels ['r']
  let g ← channelIn channels ['g']
  let b ← channelIn channels ['b']
  orFault (ofNumbers r g b)

def isBlack (c : Color) : Bool := c = black

def isWhite (c : Color) : Bool := c = white

/-! ## Forms -/

def toEntries (c : Color) : Entries Value :=
  [(['r'], .number c.red.toNumber), (['g'], .number c.green.toNumber),
    (['b'], .number c.blue.toNumber)]

def toFractions (c : Color) : Except Fault (Entries Value) := do
  let r ← c.red.toFraction
  let g ← c.green.toFraction
  let b ← c.blue.toFraction
  return [(['r'], .number r), (['g'], .number g), (['b'], .number b)]

/-- Six hexadecimal digits behind `#`. -/
def hex (c : Color) : Text :=
  '#' :: Text.hex 2 c.red.val ++ Text.hex 2 c.green.val ++ Text.hex 2 c.blue.val

def channelList (c : Color) : Text :=
  Text.join [',', ' '] [Text.ofNat c.red.val, Text.ofNat c.green.val, Text.ofNat c.blue.val]

def rgb (c : Color) : Text := ['r', 'g', 'b', '('] ++ c.channelList ++ [')']

def shown (c : Color) : Text := "ColorValue(".toList ++ c.channelList ++ [')']

end Color

end CssValues
