import CssValues.Text.Blank
import CssValues.Text.Quoted
import CssValues.Value.Basic

/-!
# The text of a calculation

`calc(` and `)` around a body. A `CalcSource` holds the body with its white space normalized: none
at the ends and single spaces between words.
-/

namespace CssValues

/-- The body of a calculation as text. -/
structure CalcSource where
  content : Text
  deriving DecidableEq

namespace CalcSource

def opening : Text := ['c', 'a', 'l', 'c', '(']

/-- The text between `calc(` and the last `)`, when it is not blank. -/
def body? (t : Text) : Option Text :=
  let trimmed := t.trim
  if opening.isPrefixOf trimmed && [')'].isSuffixOf trimmed then
    let body := (trimmed.drop opening.length).dropLast
    if Text.isBlankText body then none else some body
  else none

def isValid (t : Text) : Bool := (body? t).isSome

def isValidValue : Value → Bool
  | .text t => isValid t
  | _ => false

def ofText? (t : Text) : Option CalcSource :=
  (body? t).map fun body => ⟨Text.join [' '] body.words⟩

def ofValue? : Value → Option CalcSource
  | .text t => ofText? t
  | _ => none

def css (s : CalcSource) : Text := opening ++ s.content ++ [')']

def shown (s : CalcSource) : Text := "CalcSource(".toList ++ s.css.quoted ++ [')']

end CalcSource

end CssValues
