import CssValues.Token.Scan
import CssValues.Value.Basic

/-!
# Reading JSON

JSON with the names `NaN`, `Infinity` and `-Infinity` as numbers. A number without fraction and
exponent is an integer, any other a double; of entries with one key the last counts.
-/

namespace CssValues.Json

def isSpace (c : Char) : Bool := c == ' ' || c == '\t' || c == '\n' || c == '\r'

def skipSpace (t : Text) : Text := t.dropWhile isSpace

/-! ## Strings -/

/-- The number of four hexadecimal digits, and what follows. -/
def readCode? (t : Text) : Option (Nat × Text) :=
  let digits := t.take 4
  if digits.length = 4 && digits.all Text.isHexDigit then
    some (Text.ofHexDigits digits, t.drop 4)
  else none

def isHighSurrogate (n : Nat) : Bool := 0xD800 ≤ n && n ≤ 0xDBFF

def isLowSurrogate (n : Nat) : Bool := 0xDC00 ≤ n && n ≤ 0xDFFF

/-- The character of a number. Half a surrogate pair is no character and is replaced. -/
def charOfCode (n : Nat) : Char :=
  if 0xD800 ≤ n && n ≤ 0xDFFF then Char.ofNat 0xFFFD else Char.ofNat n

/-- The character of an escape by number, from behind `\u`. Two surrogates in a row are one
character. -/
def readUnicode? (t : Text) : Option (Char × Text) := do
  let (high, rest) ← readCode? t
  match rest with
  | '\\' :: 'u' :: more =>
    match readCode? more with
    | some (low, final) =>
      if isHighSurrogate high && isLowSurrogate low then
        some (Char.ofNat (0x10000 + (high - 0xD800) * 0x400 + (low - 0xDC00)), final)
      else some (charOfCode high, rest)
    | none => some (charOfCode high, rest)
  | _ => some (charOfCode high, rest)

def escaped? (c : Char) : Option Char :=
  match c with
  | '"' => some '"'
  | '\\' => some '\\'
  | '/' => some '/'
  | 'b' => some (Char.ofNat 0x08)
  | 'f' => some (Char.ofNat 0x0C)
  | 'n' => some '\n'
  | 'r' => some '\r'
  | 't' => some '\t'
  | _ => none

/-- One character of a string, and what follows. -/
def readChar? : Text → Option (Char × Text)
  | [] => none
  | '\\' :: 'u' :: rest => readUnicode? rest
  | '\\' :: c :: rest => (escaped? c).map fun d => (d, rest)
  | c :: rest => if c = '\\' || c.toNat < 0x20 then none else some (c, rest)

/-- The string from behind its opening quote, and what follows; at most `fuel` characters are
read. -/
def readString? : Nat → Text → Option (Text × Text)
  | _, '"' :: rest => some ([], rest)
  | 0, _ => none
  | fuel + 1, t => do
    let (c, rest) ← readChar? t
    let (more, rest) ← readString? fuel rest
    return (c :: more, rest)

/-! ## Numbers -/

/-- The digits in front of the point: a zero, or digits that start with another one. -/
def splitWhole? : Text → Option (Text × Text)
  | '0' :: rest => some (['0'], rest)
  | t =>
    let digits := t.takeWhile Text.isAsciiDigit
    if digits.isEmpty then none else some (digits, t.dropWhile Text.isAsciiDigit)

def readNumber? (t : Text) : Option (Number × Text) := do
  let (sign, body) :=
    match t with
    | '-' :: rest => (['-'], rest)
    | _ => (([] : Text), t)
  let (whole, rest) ← splitWhole? body
  let fraction := Token.fractionDigits rest
  let point := if fraction.isEmpty then [] else '.' :: fraction
  let (exponent, rest) := splitExponent Text.isAsciiDigit (rest.drop point.length)
  if point.isEmpty && exponent.isEmpty then
    match readInteger (sign ++ whole) with
    | .ok n => some (.int n, rest)
    | .error _ => none
  else
    let x ← Binary64.read? (sign ++ whole ++ point ++ exponent)
    some (.double x, rest)

/-! ## Values -/

def dropWord? (word t : Text) : Option Text :=
  if word.isPrefixOf t then some (t.drop word.length) else none

def readWord? (t : Text) : Option (Value × Text) :=
  let words : List (Text × Value) :=
    [("null".toList, .null), ("true".toList, .bool true), ("false".toList, .bool false),
      ("NaN".toList, .number (.double .nan)),
      ("Infinity".toList, .number (.double (.infinite false))),
      ("-Infinity".toList, .number (.double (.infinite true)))]
  words.findSome? fun (word, value) => (dropWord? word t).map fun rest => (value, rest)

mutual

/-- A value, and what follows. Every step takes one unit of `fuel` and at least one character. -/
def readValue? : Nat → Text → Option (Value × Text)
  | 0, _ => none
  | fuel + 1, t =>
    match t with
    | '"' :: rest => (readString? rest.length rest).map fun (s, rest) => (.text s, rest)
    | '[' :: rest =>
      match skipSpace rest with
      | ']' :: rest => some (.array [], rest)
      | rest => (readItems? fuel rest).map fun (items, rest) => (.array items, rest)
    | c :: rest =>
      if c = Bracket.curly.opening then
        match skipSpace rest with
        | d :: more =>
          if d = Bracket.curly.closing then some (.mapping [], more)
          else
            (readMembers? fuel (d :: more)).map fun (members, rest) =>
              (.mapping (Entries.ofPairs members), rest)
        | [] => none
      else (readWord? t).orElse fun _ => (readNumber? t).map fun (n, rest) => (.number n, rest)
    | [] => none

def readItems? : Nat → Text → Option (List Value × Text)
  | 0, _ => none
  | fuel + 1, t =>
    match readValue? fuel t with
    | none => none
    | some (item, rest) =>
      match skipSpace rest with
      | ']' :: rest => some ([item], rest)
      | ',' :: rest =>
        (readItems? fuel (skipSpace rest)).map fun (items, rest) => (item :: items, rest)
      | _ => none

def readMembers? : Nat → Text → Option (List (Text × Value) × Text)
  | 0, _ => none
  | fuel + 1, t =>
    match t with
    | '"' :: rest =>
      match readString? rest.length rest with
      | none => none
      | some (key, rest) =>
        match skipSpace rest with
        | ':' :: rest =>
          match readValue? fuel (skipSpace rest) with
          | none => none
          | some (value, rest) =>
            match skipSpace rest with
            | ',' :: rest =>
              (readMembers? fuel (skipSpace rest)).map fun (members, rest) =>
                ((key, value) :: members, rest)
            | c :: rest => if c = Bracket.curly.closing then some ([(key, value)], rest) else none
            | [] => none
        | _ => none
    | _ => none

end

def read? (t : Text) : Option Value :=
  match readValue? (2 * t.length + 1) (skipSpace t) with
  | some (value, rest) => if (skipSpace rest).isEmpty then some value else none
  | none => none

end CssValues.Json
