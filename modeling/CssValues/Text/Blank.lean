import CssValues.Text.Basic

/-!
# White space

Two sets of characters: those with the Unicode property White_Space, and the blanks, which are
these and the four information separators. Blanks are what is trimmed from texts and what divides
words; only white space may surround a number that stands alone.
-/

namespace CssValues.Text

/-- The Unicode property White_Space. -/
def isWhiteSpace (c : Char) : Bool :=
  let n := c.toNat
  (0x09 ≤ n && n ≤ 0x0D) || n == 0x20 || n == 0x85 || n == 0xA0 || n == 0x1680
    || (0x2000 ≤ n && n ≤ 0x200A) || n == 0x2028 || n == 0x2029 || n == 0x202F || n == 0x205F
    || n == 0x3000

/-- White space, or one of the information separators U+001C to U+001F. -/
def isBlank (c : Char) : Bool :=
  isWhiteSpace c || (0x1C ≤ c.toNat && c.toNat ≤ 0x1F)

/-- The text without the characters satisfying `p` at its two ends. -/
def trimWhere (p : Char → Bool) (t : Text) : Text :=
  (((t.dropWhile p).reverse).dropWhile p).reverse

def trim (t : Text) : Text := trimWhere isBlank t

def isBlankText (t : Text) : Bool := t.all isBlank

/-- The maximal runs of characters that are not blank. -/
def words (t : Text) : List Text := (splitWhere isBlank t).filter (fun w => !w.isEmpty)

end CssValues.Text
