import CssValues.Border
import CssValues.Calc.LooseTerm
import CssValues.Style.Basic

/-!
# Items

Whatever the library makes, compared with one another. Items of different kinds are unequal, but a
percentage, a box and a style equal the mappings that they are written as.
-/

namespace CssValues

/-- Anything that can be compared. -/
inductive Item where
  | length (l : Length)
  | percentage (p : Percentage)
  | color (c : Color)
  | term (t : LooseTerm)
  | source (s : CalcSource)
  | expression (e : CalcExpression)
  | box (b : BoxEdges)
  | context (c : Context)
  | resolver (c : Context)
  | border (b : Border)
  | style (s : Style)
  | value (v : Value)

namespace Item

def typeName : Item → Text
  | .length _ => "LengthValue".toList
  | .percentage _ => "PercentageValue".toList
  | .color _ => "ColorValue".toList
  | .term _ => "CalcTerm".toList
  | .source _ => "CalcSource".toList
  | .expression _ => "CalcExpression".toList
  | .box _ => "BoxEdges".toList
  | .context _ => "ConversionContext".toList
  | .resolver _ => "ValueResolver".toList
  | .border _ => "BorderStyle".toList
  | .style _ => "StyleDeclarations".toList
  | .value v => v.typeName

/-- The item as a plain value, if it counts as one in comparisons. -/
def toValue? : Item → Option Value
  | .percentage p => some (.mapping p.toEntries)
  | .box b => some (.mapping b.toEntries)
  | .style s => some s.toValue
  | .value v => some v
  | _ => none

def equalsValue (a : Item) (v : Value) : Bool :=
  match a.toValue? with
  | some w => w.equals v
  | none => false

/-- Equality of items. Two resolvers are never equal. -/
def equals : Item → Item → Bool
  | .length a, .length b => a.equals b
  | .percentage a, .percentage b => a.equals b
  | .color a, .color b => a = b
  | .term a, .term b => a.equals b
  | .source a, .source b => a = b
  | .expression a, .expression b => a.equals b
  | .box a, .box b => a.equals b
  | .context a, .context b => a.equals b
  | .border a, .border b => a.equals b
  | .style a, .style b => a.equals b
  | a, .value v => a.equalsValue v
  | .value v, b => b.equalsValue v
  | _, _ => false

/-- Whether the values of an item's type have hashes. What can be changed has none. -/
def typeHasHash : Item → Bool
  | .border _ | .style _ | .value (.array _) | .value (.mapping _) => false
  | _ => true

/-- Whether an item may be put under a hash. A term may only if its value may. -/
def hashable (a : Item) : Except Error Unit :=
  if !a.typeHasHash then .error (.unhashable a.typeName)
  else
    match a with
    | .term t =>
      if typeHasHash (.value t.value) then .ok () else .error (.unhashable t.value.typeName)
    | _ => .ok ()

/-- Whether two items have equal hashes for being equal: they are of one type that has hashes. The
hash of either may still be refused. -/
def sharesHash (a b : Item) : Except Error Bool :=
  if a.equals b && a.typeName = b.typeName && a.typeHasHash then do
    a.hashable
    b.hashable
    return true
  else .ok false

/-- Any attempt to change an item in place. -/
def change (a : Item) : Error := .immutable a.typeName

end Item

end CssValues
