import CssValues.Text.Table.WordCharacters

/-!
# Word characters of all scripts
-/

namespace CssValues.Text

/-- Whether a character is a letter or a number of any script, or the underscore. -/
def isWordCharacter (c : Char) : Bool := wordCharacters.has c.toNat

end CssValues.Text
