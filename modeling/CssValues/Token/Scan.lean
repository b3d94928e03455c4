import CssValues.Number.Reading
import CssValues.Token.Reader

/-!
# Tokens of a text

`Token.scan` reads one token, `Token.ofText` all of them.
-/

namespace CssValues.Token

/-! ## Numbers -/

def fractionDigits : Text → Text
  | '.' :: rest => rest.takeWhile Text.isAsciiDigit
  | _ => []

/-- The number at the front of a text. A point counts only with a digit behind it. -/
def splitNumeral? (t : Text) : Option (Text × Text) :=
  let signPart := splitSign t
  let whole := signPart.2.takeWhile Text.isAsciiDigit
  let rest := signPart.2.dropWhile Text.isAsciiDigit
  let fraction := fractionDigits rest
  if !fraction.isEmpty then
    let exponentPart := splitExponent Text.isAsciiDigit (rest.drop (fraction.length + 1))
    some (signPart.1 ++ whole ++ '.' :: fraction ++ exponentPart.1, exponentPart.2)
  else if !whole.isEmpty then
    let exponentPart := splitExponent Text.isAsciiDigit rest
    some (signPart.1 ++ whole ++ exponentPart.1, exponentPart.2)
  else none

/-- The token of a number: what stands right behind it tells a plain number from a percentage and
from a number with a unit. -/
def ofNumeral (text : Text) (rest : Text) : List Token × Text :=
  if startsIdent rest then ([.dimension text (readName rest).1], (readName rest).2)
  else
    match rest with
    | '%' :: more => ([.percentage text], more)
    | _ => ([.number text], rest)

/-! ## Ranges of code points -/

def startsRange : Text → Bool
  | u :: '+' :: c :: _ => (u == 'u' || u == 'U') && (Text.isHexDigit c || c == '?')
  | _ => false

/-- The range of code points at the front of a text, from behind its `U+`. Question marks stand for
any digits. -/
def readRange (t : Text) : Token × Text :=
  let first := (t.take 6).takeWhile Text.isHexDigit
  let rest := t.drop first.length
  let marks := (rest.take (6 - first.length)).takeWhile (· == '?')
  if !marks.isEmpty then
    (.unicodeRange (Text.ofHexDigits (first ++ marks.map fun _ => '0'))
      (Text.ofHexDigits (first ++ marks.map fun _ => 'F')), rest.drop marks.length)
  else
    match rest with
    | '-' :: more =>
      let last := (more.take 6).takeWhile Text.isHexDigit
      if last.isEmpty then
        (.unicodeRange (Text.ofHexDigits first) (Text.ofHexDigits first), rest)
      else
        (.unicodeRange (Text.ofHexDigits first) (Text.ofHexDigits last), more.drop last.length)
    | _ => (.unicodeRange (Text.ofHexDigits first) (Text.ofHexDigits first), rest)

/-! ## Names -/

def urlName : Text := ['u', 'r', 'l']

def startsQuote (t : Text) : Bool :=
  match t.dropWhile isSpace with
  | [] => false
  | c :: _ => c == '"' || c.toNat == 0x27

/-- The token of a name: with a parenthesis right behind it, it is a function or a URL. -/
def ofName (name : Text) (rest : Text) : List Token × Text :=
  match rest with
  | '(' :: more =>
    if Text.asciiLower name = urlName && !startsQuote more then readUrlToken more
    else ([.function name], more)
  | _ => ([.ident name], rest)

/-! ## Other tokens -/

def readStringTokens (quote : Char) (t : Text) : List Token × Text :=
  let found := readString quote t
  match found.2.1 with
  | .closed => ([.string found.1 true], found.2.2)
  | .unfinished => ([.string found.1 false, .endInString], found.2.2)
  | .broken => ([.badString], found.2.2)

def skipComment : Text → Text
  | [] => []
  | '*' :: '/' :: rest => rest
  | _ :: rest => skipComment rest

/-- Whether a name that need not be an identifier starts here. -/
def startsName : Text → Bool
  | [] => false
  | c :: rest => isNameChar c || startsEscape (c :: rest)

/-- The tokens that start with a character that starts neither name nor number. -/
def scanMark (c : Char) (t : Text) : List Token × Text :=
  if c = '@' then
    if startsIdent t then ([.atKeyword (readName t).1], (readName t).2) else ([.literal [c]], t)
  else if c = '#' then
    if startsName t then ([.hash (readName t).1 (startsIdent t)], (readName t).2)
    else ([.literal [c]], t)
  else if c = '"' || c.toNat = 0x27 then readStringTokens c t
  else if c = '/' && ['*'].isPrefixOf t then ([], skipComment (t.drop 1))
  else if c = '<' && ['!', '-', '-'].isPrefixOf t then ([.literal ['<', '!', '-', '-']], t.drop 3)
  else if c = '|' && ['|'].isPrefixOf t then ([.literal ['|', '|']], t.drop 1)
  else if ['~', '|', '^', '$', '*'].contains c && ['='].isPrefixOf t then
    ([.literal [c, '=']], t.drop 1)
  else
    match Bracket.ofOpening? c, Bracket.ofClosing? c with
    | some b, _ => ([.opening b], t)
    | none, some b => ([.closing b], t)
    | none, none => ([.literal [c]], t)

/-! ## All tokens -/

/-- The tokens at the front of a text. Most often this is one token; a comment gives none, and a
string or URL that ends with the text gives two. -/
def scan (c : Char) (t : Text) : List Token × Text :=
  if isSpace c then ([.whitespace (c :: t.takeWhile isSpace)], t.dropWhile isSpace)
  else if startsRange (c :: t) then ([(readRange (t.drop 1)).1], (readRange (t.drop 1)).2)
  else if c = '-' && ['-', '>'].isPrefixOf t then ([.literal ['-', '-', '>']], t.drop 2)
  else if startsIdent (c :: t) then ofName (readName (c :: t)).1 (readName (c :: t)).2
  else
    match splitNumeral? (c :: t) with
    | some (text, rest) => ofNumeral text rest
    | none => scanMark c t

/-! ## The rest gets shorter -/

theorem length_readName_lt {c : Char} {t : Text} (h : startsIdent (c :: t) = true) :
    (readName (c :: t)).2.length ≤ t.length := by
  rw [readName]
  split
  · simpa using length_readName_le t
  · next hc =>
    have hdash : c ≠ '-' := by rintro rfl; exact hc (by decide)
    have hstart : isNameStart c = false := by
      cases hs : isNameStart c
      · rfl
      · exact absurd (by simp [isNameChar, hs]) hc
    have hesc : startsEscape (c :: t) = true := by
      unfold startsIdent at h
      split at h <;> simp_all
    rw [if_pos hesc]
    have := length_readEscape_le t
    have := length_readName_le (readEscape t).2
    simp only [prepend_snd]
    omega

theorem length_ofName_le (name rest : Text) : (ofName name rest).2.length ≤ rest.length := by
  unfold ofName
  split
  · next more =>
    split
    · have := length_readUrlToken_le more
      simp only [List.length_cons]
      omega
    · simp
  · simp

theorem length_ofNumeral_le (text rest : Text) : (ofNumeral text rest).2.length ≤ rest.length := by
  unfold ofNumeral
  split
  · exact length_readName_le rest
  · split <;> simp

theorem length_readRange_le (t : Text) : (readRange t).2.length ≤ t.length := by
  simp only [readRange]
  split
  · simp only [List.length_drop]; omega
  · split
    · next more h =>
      have hlen := congrArg List.length h
      simp only [List.length_drop, List.length_cons] at hlen
      split
      · simp only [List.length_drop]; omega
      · simp only [List.length_drop]; omega
    · simp only [List.length_drop]; omega

theorem splitExponent_length_le (digit : Char → Bool) (t : Text) :
    (splitExponent digit t).2.length ≤ t.length := by
  have := congrArg List.length (splitExponent_append digit t)
  simp only [List.length_append] at this
  omega

theorem length_splitNumeral?_lt {t number rest : Text} (h : splitNumeral? t = some (number, rest)) :
    rest.length < t.length := by
  have hsign := congrArg List.length (splitSign_append t)
  have hdigits := congrArg List.length
    (List.takeWhile_append_dropWhile (p := Text.isAsciiDigit) (l := (splitSign t).2))
  simp only [List.length_append] at hsign hdigits
  simp only [splitNumeral?] at h
  generalize (splitSign t).2.dropWhile Text.isAsciiDigit = tail at h hdigits
  generalize (splitSign t).2.takeWhile Text.isAsciiDigit = whole at h hdigits
  split at h
  · next hfraction =>
    simp only [Option.some.injEq, Prod.mk.injEq] at h
    have hdrop := splitExponent_length_le Text.isAsciiDigit
      (tail.drop ((fractionDigits tail).length + 1))
    have hne : tail ≠ [] := by
      rintro rfl
      exact absurd hfraction (by decide)
    have := List.length_pos_iff.mpr hne
    rw [List.length_drop] at hdrop
    rw [← h.2]
    omega
  · split at h
    · next hwhole =>
      simp only [Option.some.injEq, Prod.mk.injEq] at h
      have := splitExponent_length_le Text.isAsciiDigit tail
      have hne : whole ≠ [] := by
        rintro rfl
        exact absurd hwhole (by decide)
      have := List.length_pos_iff.mpr hne
      rw [← h.2]
      omega
    · simp at h

theorem length_readStringTokens_le (quote : Char) (t : Text) :
    (readStringTokens quote t).2.length ≤ t.length := by
  have := length_readString_le quote t
  unfold readStringTokens
  simp only
  split <;> exact this

theorem length_skipComment_le (t : Text) : (skipComment t).length ≤ t.length := by
  fun_induction skipComment t with
  | case1 => simp
  | case2 rest => simp only [List.length_cons]; omega
  | case3 c rest h ih => simp only [List.length_cons]; omega

theorem length_scanMark_le (c : Char) (t : Text) : (scanMark c t).2.length ≤ t.length := by
  unfold scanMark
  split
  · split
    · exact length_readName_le t
    · simp
  · split
    · split
      · exact length_readName_le t
      · simp
    · split
      · exact length_readStringTokens_le c t
      · split
        · have := length_skipComment_le (t.drop 1)
          simp only [List.length_drop] at this
          simp only
          omega
        · split
          · simp
          · split
            · simp
            · split
              · simp
              · split <;> simp

theorem length_scan_le (c : Char) (t : Text) : (scan c t).2.length ≤ t.length := by
  unfold scan
  split
  · exact length_dropWhile_le isSpace t
  · split
    · have := length_readRange_le (t.drop 1)
      simp only [List.length_drop] at this
      simp only
      omega
    · split
      · simp
      · split
        · next h =>
          have := length_readName_lt h
          have := length_ofName_le (readName (c :: t)).1 (readName (c :: t)).2
          omega
        · split
          · next text rest h =>
            have := length_splitNumeral?_lt h
            have := length_ofNumeral_le text rest
            simp only [List.length_cons] at *
            omega
          · exact length_scanMark_le c t

def scanAll (t : Text) : List Token :=
  match t with
  | [] => []
  | c :: rest => (scan c rest).1 ++ scanAll (scan c rest).2
termination_by t.length
decreasing_by
  have := length_scan_le c rest
  simp only [List.length_cons]
  omega

def numeral? : Token → Option Text
  | .number text => some text
  | .percentage text => some text
  | .dimension text _ => some text
  | _ => none

/-- The fault of a token whose number is an integer of too many digits. -/
def fault? (t : Token) : Option Fault :=
  t.numeral?.bind fun text =>
    let digits := (splitSign text).2
    if digits.all Text.isAsciiDigit && maxDigits < digits.length then
      some (.tooManyDigits digits.length)
    else none

/-- The tokens of a text, unless one of its integers is too long. -/
def ofText (t : Text) : Except Fault (List Token) :=
  let tokens := scanAll (normalize t)
  match tokens.findSome? fault? with
  | some f => .error f
  | none => .ok tokens

end CssValues.Token
