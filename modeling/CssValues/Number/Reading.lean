import CssValues.Number.Layout
import CssValues.Text.Blank
import CssValues.Text.DecimalDigit

/-!
# Reading numbers

`splitNumber?` and `splitUnsigned?` take the longest number literal off the front of a text.
`Binary64.read?` reads a whole text as a double and accepts more than literals: white space around
the number, underscores between digits, and the names of the infinities and of NaN.
-/

namespace CssValues

open Text

/-! ## Number literals -/

def splitSign : Text → Text × Text
  | '+' :: rest => (['+'], rest)
  | '-' :: rest => (['-'], rest)
  | t => ([], t)

theorem splitSign_append (t : Text) : (splitSign t).1 ++ (splitSign t).2 = t := by
  unfold splitSign
  split <;> rfl

/-- Digits with an optional point among, before or behind them. A point alone is no mantissa. -/
def splitMantissa? (t : Text) : Option (Text × Text) :=
  let whole := t.takeWhile isDigit
  match t.dropWhile isDigit with
  | '.' :: rest =>
    let fraction := rest.takeWhile isDigit
    if whole.isEmpty && fraction.isEmpty then none
    else some (whole ++ '.' :: fraction, rest.dropWhile isDigit)
  | rest => if whole.isEmpty then none else some (whole, rest)

def isExponentMark (c : Char) : Bool := c == 'e' || c == 'E'

/-- An exponent if there is a whole one, else nothing; `digit` says what its digits are. -/
def splitExponent (digit : Char → Bool) : Text → Text × Text
  | [] => ([], [])
  | c :: rest =>
    let signPart := splitSign rest
    let digits := signPart.2.takeWhile digit
    if isExponentMark c && !digits.isEmpty then
      (c :: signPart.1 ++ digits, signPart.2.dropWhile digit)
    else ([], c :: rest)

theorem splitExponent_append (digit : Char → Bool) (t : Text) :
    (splitExponent digit t).1 ++ (splitExponent digit t).2 = t := by
  cases t with
  | nil => rfl
  | cons c rest =>
    simp only [splitExponent]
    split
    · simp [splitSign_append]
    · rfl

def splitUnsigned? (t : Text) : Option (Text × Text) :=
  match splitMantissa? t with
  | none => none
  | some (mantissa, rest) =>
    let exponentPart := splitExponent isDigit rest
    some (mantissa ++ exponentPart.1, exponentPart.2)

def splitNumber? (t : Text) : Option (Text × Text) :=
  let signPart := splitSign t
  match splitUnsigned? signPart.2 with
  | none => none
  | some (number, rest) => some (signPart.1 ++ number, rest)

/-! ## Doubles -/

/-- The text without the underscores that stand between two digits; an underscore elsewhere is an
error. The flag says whether a digit comes before the text. -/
def dropUnderscores? (afterDigit : Bool) : Text → Option Text
  | [] => some []
  | c :: rest =>
    if c = '_' then
      match rest with
      | [] => none
      | d :: _ => if afterDigit && isDigit d then dropUnderscores? false rest else none
    else (dropUnderscores? (isDigit c) rest).map (c :: ·)

/-- The value of an exponent with its mark; an empty text is the exponent zero. -/
def readExponent? : Text → Option Int
  | [] => some 0
  | c :: rest =>
    let signPart := splitSign rest
    if isExponentMark c && !signPart.2.isEmpty && signPart.2.all isDigit then
      let n : Int := ofDigits signPart.2
      some (if signPart.1 = ['-'] then -n else n)
    else none

/-- A decimal number written with or without point and exponent. -/
def readDecimal? (negative : Bool) (t : Text) : Option Decimal :=
  let whole := t.takeWhile isDigit
  let rest := t.dropWhile isDigit
  let fraction :=
    match rest with
    | '.' :: r => r.takeWhile isDigit
    | _ => []
  let tail :=
    match rest with
    | '.' :: r => r.dropWhile isDigit
    | r => r
  if whole.isEmpty && fraction.isEmpty then none
  else
    (readExponent? tail).map fun e =>
      ⟨negative, ofDigits (whole ++ fraction), e - fraction.length⟩

namespace Binary64

def readUnsigned? (negative : Bool) (t : Text) : Option Binary64 :=
  let word := asciiLower t
  if word = "inf".toList || word = "infinity".toList then some (.infinite negative)
  else if word = "nan".toList then some .nan
  else (readDecimal? negative t).map Decimal.toDouble

/-- The double that a text stands for. A value beyond the doubles reads as an infinity. -/
def read? (t : Text) : Option Binary64 :=
  (dropUnderscores? false (trimWhere isWhiteSpace t)).bind fun body =>
    let signPart := splitSign body
    readUnsigned? (signPart.1 = ['-']) signPart.2

/-- The double that a text stands for, unless it is infinite or NaN. -/
def readFinite? (t : Text) : Option Binary64 :=
  (read? t).filter isFinite

theorem isFinite_of_readFinite? {t : Text} {x : Binary64} (h : readFinite? t = some x) :
    x.isFinite = true := by
  unfold readFinite? at h
  exact (Option.filter_eq_some_iff.mp h).2

end Binary64

/-! ## Integers -/

/-- The integer that decimal digits stand for, leading zeros counted against the limit. -/
def readDigits (t : Text) : Except Fault Nat :=
  if maxDigits < t.length then .error (.tooManyDigits t.length) else .ok (ofDigits t)

def readInteger (t : Text) : Except Fault Int := do
  let signPart := splitSign t
  let n ← readDigits signPart.2
  return if signPart.1 = ['-'] then -(n : Int) else n

end CssValues
