import CssValues.Component.Css
import CssValues.Text.Blank

/-!
# The parts of a shorthand

A shorthand value lists several values with white space between them.
-/

namespace CssValues

/-- The top-level components of a value as texts, white space left out. -/
def shorthandParts (value : Text) : Except Fault (List Text) := do
  let components ← Component.ofText value
  return (components.filter (fun c => !c.isWhitespace)).map fun c => (Component.listCss [c]).trim

end CssValues
