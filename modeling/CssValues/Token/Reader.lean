import CssValues.Error
import CssValues.Token.Basic

/-!
# Reading names, strings and URLs

Names, strings and URLs with their escapes. Each reader takes what it reads off the front of a text
and returns the rest, with a lemma that the rest is no longer.
-/

namespace CssValues.Token

theorem length_dropWhile_le (p : Char → Bool) (t : Text) : (t.dropWhile p).length ≤ t.length :=
  (List.dropWhile_suffix p).length_le

def prepend {α : Type} (c : Char) (found : Text × α) : Text × α := (c :: found.1, found.2)

@[simp] theorem prepend_snd {α : Type} (c : Char) (found : Text × α) :
    (prepend c found).2 = found.2 := rfl

/-! ## Escapes -/

/-- The character with this code point; one that is not a character is replaced. -/
def replacing (n : Nat) : Char :=
  if n = 0 || 0x10FFFF < n || (0xD800 ≤ n && n ≤ 0xDFFF) then Char.ofNat 0xFFFD else Char.ofNat n

def dropSpace : Text → Text
  | [] => []
  | c :: rest => if isSpace c then rest else c :: rest

/-- The character that an escape stands for, from behind its backslash: up to six hexadecimal digits
and a space, or any other character as itself. -/
def readEscape (t : Text) : Char × Text :=
  let digits := (t.take 6).takeWhile Text.isHexDigit
  if digits.isEmpty then
    match t with
    | [] => (Char.ofNat 0xFFFD, [])
    | c :: rest => (c, rest)
  else (replacing (Text.ofHexDigits digits), dropSpace (t.drop digits.length))

theorem length_dropSpace_le (t : Text) : (dropSpace t).length ≤ t.length := by
  cases t with
  | nil => simp [dropSpace]
  | cons c rest => by_cases h : isSpace c <;> simp [dropSpace, h]

theorem length_readEscape_le (t : Text) : (readEscape t).2.length ≤ t.length := by
  simp only [readEscape]
  split
  · cases t <;> simp
  · have := length_dropSpace_le (t.drop ((t.take 6).takeWhile Text.isHexDigit).length)
    simp only [List.length_drop] at this
    simp only
    omega

/-! ## Names -/

def readName (t : Text) : Text × Text :=
  match t with
  | [] => ([], [])
  | c :: rest =>
    if isNameChar c then prepend c (readName rest)
    else if startsEscape (c :: rest) then
      prepend (readEscape rest).1 (readName (readEscape rest).2)
    else ([], c :: rest)
termination_by t.length
decreasing_by
  · simp
  · have := length_readEscape_le rest
    simp only [List.length_cons]
    omega

theorem length_readName_le (t : Text) : (readName t).2.length ≤ t.length := by
  fun_induction readName t with
  | case1 => simp
  | case2 c rest h ih => simp only [prepend_snd, List.length_cons]; omega
  | case3 c rest h1 h2 ih =>
    have := length_readEscape_le rest
    simp only [prepend_snd, List.length_cons]
    omega
  | case4 => simp

/-! ## Strings and URLs -/

inductive StringEnd where
  | closed
  /-- With the text. -/
  | unfinished
  /-- At a line break. -/
  | broken
  deriving DecidableEq

/-- The string up to the given quote, from behind the opening one. -/
def readString (quote : Char) (t : Text) : Text × StringEnd × Text :=
  match t with
  | [] => ([], .unfinished, [])
  | c :: rest =>
    if c = quote then ([], .closed, rest)
    else if c = '\\' then
      match rest with
      | [] => ([], .unfinished, [])
      | d :: more =>
        if d = '\n' then readString quote more
        else prepend (readEscape (d :: more)).1 (readString quote (readEscape (d :: more)).2)
    else if c = '\n' then ([], .broken, c :: rest)
    else prepend c (readString quote rest)
termination_by t.length
decreasing_by
  · simp only [List.length_cons]; omega
  · have := length_readEscape_le (d :: more)
    simp only [List.length_cons] at *
    omega
  · simp

/-- A character that may not stand in a URL without quotes. -/
def isBadInUrl (c : Char) : Bool :=
  c == '"' || c.toNat == 0x27 || c == '(' || c.toNat ≤ 0x08 || c.toNat == 0x0B
    || (0x0E ≤ c.toNat && c.toNat ≤ 0x1F) || c.toNat == 0x7F

inductive UrlEnd where
  | closed
  /-- With the text. -/
  | unfinished
  /-- At white space. -/
  | space
  /-- At a character that may not stand there. -/
  | bad
  deriving DecidableEq

def readUrl (t : Text) : Text × UrlEnd × Text :=
  match t with
  | [] => ([], .unfinished, [])
  | c :: rest =>
    if c = ')' then ([], .closed, rest)
    else if isSpace c then ([], .space, rest)
    else if startsEscape (c :: rest) then
      prepend (readEscape rest).1 (readUrl (readEscape rest).2)
    else if isBadInUrl c then ([], .bad, rest)
    else prepend c (readUrl rest)
termination_by t.length
decreasing_by
  · have := length_readEscape_le rest
    simp only [List.length_cons]
    omega
  · simp

/-- The text behind a URL that is given up: from behind the next `)` that has no backslash. -/
def skipUrl : Text → Text
  | [] => []
  | '\\' :: ')' :: rest => skipUrl rest
  | c :: rest => if c = ')' then rest else skipUrl rest

def readUrlToken (t : Text) : List Token × Text :=
  let body := t.dropWhile isSpace
  match body with
  | [] => ([.url [] false, .endInUrl], [])
  | _ =>
    let found := readUrl body
    match found.2.1 with
    | .closed => ([.url found.1 true], found.2.2)
    | .unfinished => ([.url found.1 false, .endInUrl], found.2.2)
    | .bad => ([.badUrl], skipUrl found.2.2)
    | .space =>
      match found.2.2.dropWhile isSpace with
      | [] => ([.url found.1 false, .endInUrl], [])
      | c :: rest =>
        if c = ')' then ([.url found.1 true], rest) else ([.badUrl], skipUrl (c :: rest))

theorem length_readString_le (quote : Char) (t : Text) :
    (readString quote t).2.2.length ≤ t.length := by
  fun_induction readString quote t with
  | case1 => simp
  | case2 => simp
  | case3 => simp
  | case4 more h ih => simp only [List.length_cons]; omega
  | case5 d more h1 h2 ih =>
    have := length_readEscape_le (d :: more)
    simp only [prepend_snd, List.length_cons] at *
    omega
  | case6 => simp
  | case7 c rest h1 h2 h3 ih => simp only [prepend_snd, List.length_cons]; omega

theorem length_readUrl_le (t : Text) : (readUrl t).2.2.length ≤ t.length := by
  fun_induction readUrl t with
  | case1 => simp
  | case2 => simp
  | case3 => simp
  | case4 c rest h1 h2 h3 ih =>
    have := length_readEscape_le rest
    simp only [prepend_snd, List.length_cons]
    omega
  | case5 => simp
  | case6 c rest h1 h2 h3 h4 ih => simp only [prepend_snd, List.length_cons]; omega

theorem length_skipUrl_le (t : Text) : (skipUrl t).length ≤ t.length := by
  fun_induction skipUrl t with
  | case1 => simp
  | case2 rest ih => simp only [List.length_cons]; omega
  | case3 => simp
  | case4 c rest h1 h2 ih => simp only [List.length_cons]; omega

theorem length_readUrlToken_le (t : Text) : (readUrlToken t).2.length ≤ t.length := by
  have hbody := length_dropWhile_le isSpace t
  have hfound := length_readUrl_le (t.dropWhile isSpace)
  have hskip := length_skipUrl_le (readUrl (t.dropWhile isSpace)).2.2
  have hspace := length_dropWhile_le isSpace (readUrl (t.dropWhile isSpace)).2.2
  simp only [readUrlToken]
  split
  · simp
  · split
    · simp only; omega
    · simp only; omega
    · simp only; omega
    · split
      · simp
      · next c rest h =>
        rw [h] at hspace
        have := length_skipUrl_le (c :: rest)
        simp only [List.length_cons] at *
        split
        · simp only; omega
        · simp only; omega

end CssValues.Token
