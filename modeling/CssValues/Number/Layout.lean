import CssValues.Number.Decimal
import CssValues.Text.Basic

/-!
# Numbers as text

Two forms of a number. `Number.text` is the form of messages: the shortest digits that read back,
positional from `0.0001` up to sixteen digits before the point and scientific beyond, and never
without a mark that tells a double from an integer. `Number.plain` is the form of style values:
always positional, integral values without a point.
-/

namespace CssValues

/-- The most digits an integer may be written with. -/
def maxDigits : Nat := 4300

/-- The digits of a coefficient with a decimal point where the exponent puts it. -/
def positional (coefficient : Nat) (exponent : Int) : Text :=
  let digits := Text.ofNat coefficient
  if 0 ≤ exponent then digits ++ List.replicate exponent.toNat '0'
  else
    let places := (-exponent).toNat
    if places < digits.length then
      digits.take (digits.length - places) ++ '.' :: digits.drop (digits.length - places)
    else '0' :: '.' :: List.replicate (places - digits.length) '0' ++ digits

/-- A power of ten behind its mark, with its sign and at least two digits. -/
def powerOfTen (shift : Int) : Text :=
  let power := Text.ofNat shift.natAbs
  'e' :: (if shift < 0 then '-' else '+') :: List.replicate (2 - power.length) '0' ++ power

def scientific (coefficient : Nat) (exponent : Int) : Text :=
  let digits := Text.ofNat coefficient
  digits.take 1 ++ (if digits.length ≤ 1 then [] else '.' :: digits.drop 1)
    ++ powerOfTen (exponent + digits.length - 1)

def messageForm (d : Decimal) : Text :=
  let shift := d.exponent + (Text.ofNat d.coefficient).length - 1
  if -4 ≤ shift ∧ shift < 16 then
    if 0 ≤ d.exponent then positional d.coefficient d.exponent ++ ['.', '0']
    else positional d.coefficient d.exponent
  else scientific d.coefficient d.exponent

def signed (negative : Bool) (t : Text) : Text := if negative then '-' :: t else t

namespace Binary64

def text (x : Binary64) : Text :=
  match x with
  | .finite negative m e h =>
    if m = 0 then signed negative "0.0".toList
    else
      signed negative
        (messageForm (Decimal.shortest (.finite false m e h) (exact false m e)))
  | .infinite negative => signed negative "inf".toList
  | .nan => "nan".toList

def plain (x : Binary64) : Text :=
  match x with
  | .finite negative m e h =>
    let q := exact negative m e
    if q.den = 1 then Text.ofInt q.num
    else
      let d := Decimal.shortest (.finite false m e h) (exact false m e)
      signed negative (positional d.coefficient d.exponent)
  | .infinite negative => signed negative "Infinity".toList
  | .nan => "NaN".toList

end Binary64

namespace Number

def text : Number → Text
  | .int n => Text.ofInt n
  | .double x => x.text

def shortText (a : Number) : Except Fault Text :=
  match a with
  | .int n => if maxDigits < (Text.ofNat n.natAbs).length then .error .tooLong else .ok a.text
  | .double _ => .ok a.text

/-- A number in the form of style values. An integer is written with its own digits, but only if
there is a double near it. -/
def plain : Number → Except Fault Text
  | .int n => do
    let _ ← Number.toDouble (.int n)
    return Text.ofInt n
  | .double x => .ok x.plain

end Number

end CssValues
