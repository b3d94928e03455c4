import CssValues.Color.Basic
import CssValues.Note
import CssValues.Number.Reading
import CssValues.Text.Lowercase

/-!
# Reading colours

Colours are written by name, as hexadecimal digits, or in the form of a function.
-/

namespace CssValues.Color

/-! ## Names -/

def named : List (Text × Color) :=
  [("red".toList, ofLevels 255 0 0), ("green".toList, ofLevels 0 128 0),
    ("blue".toList, ofLevels 0 0 255), ("black".toList, ofLevels 0 0 0),
    ("white".toList, ofLevels 255 255 255), ("gray".toList, ofLevels 128 128 128),
    ("grey".toList, ofLevels 128 128 128), ("silver".toList, ofLevels 192 192 192),
    ("yellow".toList, ofLevels 255 255 0), ("cyan".toList, ofLevels 0 255 255),
    ("aqua".toList, ofLevels 0 255 255), ("magenta".toList, ofLevels 255 0 255),
    ("fuchsia".toList, ofLevels 255 0 255), ("orange".toList, ofLevels 255 165 0),
    ("purple".toList, ofLevels 128 0 128), ("brown".toList, ofLevels 165 42 42),
    ("pink".toList, ofLevels 255 192 203), ("lime".toList, ofLevels 0 255 0),
    ("navy".toList, ofLevels 0 0 128), ("maroon".toList, ofLevels 128 0 0),
    ("olive".toList, ofLevels 128 128 0), ("teal".toList, ofLevels 0 128 128),
    ("transparent".toList, ofLevels 0 0 0)]

def ofName? (t : Text) : Option Color := Entries.get? (Text.lower t.trim) named

/-! ## Hexadecimal digits -/

def hexChannel (high low : Char) : Channel := .ofInt (Text.ofHexDigits [high, low])

/-- The colour of six hexadecimal digits, or of three that each count twice. -/
def ofHexDigits? : Text → Option Color
  | [r, g, b] => some ⟨hexChannel r r, hexChannel g g, hexChannel b b⟩
  | [r, r', g, g', b, b'] => some ⟨hexChannel r r', hexChannel g g', hexChannel b b'⟩
  | _ => none

/-- The colour of three or six hexadecimal digits, with or without `#`. -/
def ofHex? (t : Text) : Option Color :=
  let digits :=
    match t.trim with
    | '#' :: rest => rest
    | body => body
  if digits.all Text.isHexDigit then ofHexDigits? digits else none

/-! ## Functions -/

/-- What follows `rgb(` or `rgba(`, in any case. -/
def dropOpening? (t : Text) : Option Text :=
  if Text.asciiLower (t.take 5) = ['r', 'g', 'b', 'a', '('] then some (t.drop 5)
  else if Text.asciiLower (t.take 4) = ['r', 'g', 'b', '('] then some (t.drop 4)
  else none

def splitDigits? (t : Text) : Option (Text × Text) :=
  let body := t.dropWhile Text.isBlank
  let digits := body.takeWhile Text.isDigit
  if digits.isEmpty then none
  else some (digits, (body.dropWhile Text.isDigit).dropWhile Text.isBlank)

def dropComma? : Text → Option Text
  | ',' :: rest => some rest
  | _ => none

/-- Whether a text is an opacity between blanks and a closing parenthesis. The number has digits
behind its point if it has a point, and is not used. -/
def isAlphaEnd (t : Text) : Bool :=
  let body := t.dropWhile Text.isBlank
  let whole := body.takeWhile Text.isDigit
  match body.dropWhile Text.isDigit with
  | '.' :: rest =>
    !(rest.takeWhile Text.isDigit).isEmpty
      && (rest.dropWhile Text.isDigit).dropWhile Text.isBlank = [')']
  | rest => !whole.isEmpty && rest.dropWhile Text.isBlank = [')']

/-- Whether a text ends the list of channels. -/
def isListEnd (t : Text) : Bool :=
  match dropComma? t with
  | some rest => isAlphaEnd rest
  | none => t = [')']

/-- The digits of the three channels of a colour in the form of a function. -/
def splitRgb? (t : Text) : Option (Text × Text × Text) := do
  let rest ← dropOpening? t.trim
  let (red, rest) ← splitDigits? rest
  let rest ← dropComma? rest
  let (green, rest) ← splitDigits? rest
  let rest ← dropComma? rest
  let (blue, rest) ← splitDigits? rest
  if isListEnd rest then some (red, green, blue) else none

/-- Why a text is not read as a colour. -/
inductive Refusal where
  | notText
  | blank
  | unrecognized
  /-- A channel above 255. -/
  | channelOutOfRange
  | fault (f : Fault)

def Refusal.fault? : Refusal → Option Fault
  | .fault f => some f
  | _ => none

/-- The colour in the form of a function. A channel out of range refuses the whole text. -/
def ofRgb (t : Text) : Except Refusal Color :=
  match splitRgb? t with
  | none => .error .unrecognized
  | some (red, green, blue) =>
    match [red, green, blue].mapM readDigits with
    | .error f => .error (.fault f)
    | .ok channels =>
      if channels.any (255 < ·) then .error .channelOutOfRange
      else
        match channels with
        | [r, g, b] => .ok (ofLevels r g b)
        | _ => .error .unrecognized

/-! ## Any form -/

def Refusal.rangeNotes (t : Text) : Refusal → List Note
  | .channelOutOfRange =>
    [⟨"css.color".toList, "rgb() channel out of range: ".toList ++ t.quoted⟩]
  | _ => []

def Refusal.notes (t : Text) (refusal : Refusal) : List Note :=
  match refusal with
  | .unrecognized | .channelOutOfRange =>
    refusal.rangeNotes t
      ++ [⟨"css.color".toList, "Unrecognized color value: ".toList ++ t.quoted⟩]
  | _ => []

def read (t : Text) : Except Refusal Color :=
  if Text.isBlankText t then .error .blank
  else
    match ofName? t with
    | some c => .ok c
    | none =>
      match ofHex? t with
      | some c => .ok c
      | none => ofRgb t

def readValue : Value → Except Refusal Color
  | .text t => read t
  | _ => .error .notText

end CssValues.Color
