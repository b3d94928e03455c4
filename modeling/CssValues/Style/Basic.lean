import CssValues.Declaration.Basic
import CssValues.Error
import CssValues.Note
import CssValues.Text.Blank
import CssValues.Text.Lowercase

/-!
# Style declarations

The properties of an element: an ordered map from trimmed lower-case names to trimmed values, none
of them blank. Every operation builds its result anew with `normalize`.
-/

namespace CssValues

/-- Property names and values in the order of declaration. -/
structure Style where
  properties : Entries Text

namespace Style

/-- The form of a name that the properties are kept under. -/
def propertyName (name : Text) : Text := Text.lower name.trim

/-- Take in one pair, unless its name or value is blank or its value is missing. -/
def take (properties : Entries Text) (pair : Text × Option Text) : Entries Text :=
  match pair.2 with
  | some value =>
    if Text.isBlankText pair.1 || Text.isBlankText value then properties
    else properties.put (propertyName pair.1) value.trim
  | none => properties

/-- The style that pairs denote, later ones winning. -/
def normalize (pairs : List (Text × Option Text)) : Style := ⟨pairs.foldl take []⟩

def empty : Style := ⟨[]⟩

def ofEntries (entries : Entries (Option Text)) : Style := normalize entries

def pairs (s : Style) : Entries (Option Text) :=
  s.properties.map fun (name, value) => (name, some value)

/-! ## Looking up -/

def get? (s : Style) (name : Text) : Option Text := s.properties.get? (Text.lower name)

def contains (s : Style) (name : Text) : Bool := (s.get? name).isSome

/-- The value of a property that has to be there. -/
def item (s : Style) (name : Text) : Except Error Text :=
  match s.get? name with
  | some value => .ok value
  | none => .error (.missingProperty (Text.lower name))

def isEmpty (s : Style) : Bool := s.properties.isEmpty

def size (s : Style) : Nat := s.properties.length

/-! ## Changing -/

/-- The style with one more entry, under the name as given. -/
def set (s : Style) (name : Text) (value : Option Text) : Style :=
  normalize (s.pairs.put name value)

def remove (s : Style) (name : Text) : Style := normalize (s.pairs.erase (Text.lower name))

/-- The style with the entries of a map taking precedence. -/
def merge (s : Style) (override : Entries (Option Text)) : Style :=
  normalize (s.pairs.putAll (Entries.ofPairs (override.map fun (name, value) =>
    (Text.lower name, value))))

/-! ## Forms -/

def toValue (s : Style) : Value :=
  .mapping (s.properties.map fun (name, value) => (name, .text value))

/-- Equality of the properties, regardless of their order. -/
def equals (s t : Style) : Bool := s.toValue.equals t.toValue

def css (s : Style) : Text :=
  Text.join [';', ' '] (s.properties.map fun (name, value) => name ++ ':' :: ' ' :: value)

def shown (s : Style) : Text := "StyleDeclarations(".toList ++ s.toValue.shown ++ [')']

/-! ## Reading -/

/-- The pair that an item of a style attribute declares. -/
def itemPair : DeclarationItem → Option (Text × Option Text)
  | .declaration d =>
    let value := (Component.listCss d.value).trim
    if value.isEmpty then none else some (d.name, some value)
  | _ => none

def itemNotes (t : Text) : DeclarationItem → List Note
  | .declaration _ => []
  | _ => [⟨"styles.declarations".toList,
      "Skipping malformed style declaration in ".toList ++ t.quoted⟩]

/-- Read a style attribute. Later declarations win, and what is no declaration is skipped. -/
def read (t : Text) : Noted Style :=
  if Text.isBlankText t then pure empty
  else
    match DeclarationItem.ofText t with
    | .error f => .ofResult (.error f)
    | .ok items =>
      ⟨items.flatMap (itemNotes t),
        .ok (normalize (Entries.ofPairs (items.filterMap itemPair)))⟩

end Style

end CssValues
