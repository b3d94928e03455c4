import CssValues.Border
import CssValues.Style.Basic

/-!
# Typed properties

The properties that have a meaning of their own, resolved under a context.
-/

namespace CssValues

/-- What a property, or any style value, resolves to. -/
inductive Resolved where
  | number (n : Number)
  | percentage (p : Percentage)
  | color (c : Color)
  | box (b : BoxEdges)
  | border (b : Border)

def Size.toResolved : Size → Resolved
  | .pixels n => .number n
  | .percentage p => .percentage p

namespace Style

/-! ## Sizes -/

def getSize (s : Style) (c : Context) (name : Text) : Noted (Option Size) :=
  match s.get? name with
  | none => pure none
  | some value => Resolver.attempt (Resolver.size c value)

/-- Whether a value is a plain number of pixels: digits, with digits behind a point if there is a
point, and `px` or nothing behind them. -/
def isPlainPixels (value : Text) : Bool :=
  let whole := value.takeWhile Text.isDigit
  let rest := value.dropWhile Text.isDigit
  let isEnd (t : Text) : Bool := t = [] || t = ['p', 'x']
  !whole.isEmpty &&
    match rest with
    | '.' :: more =>
      !(more.takeWhile Text.isDigit).isEmpty && isEnd (more.dropWhile Text.isDigit)
    | _ => isEnd rest

/-- A property that is a plain number of pixels. -/
def getPixels (s : Style) (c : Context) (name : Text) : Noted (Option Number) := do
  match s.get? name with
  | none => return none
  | some value =>
    if isPlainPixels value then
      match ← Resolver.attempt (Resolver.size c value) with
      | some (.pixels n) => return some n
      | _ => return none
    else return none

/-! ## Boxes -/

def sideName (name : Text) (side : Side) : Text := name ++ '-' :: side.name

def getEdge (s : Style) (c : Context) (name : Text) (side : Side) : Noted (Option Number) := do
  match s.get? (sideName name side) with
  | none => return none
  | some value => return (← Resolver.attempt (Resolver.pixels c value)).map (Number.max 0)

/-- The four edges of a box. The property of a side overrides the edge of the shorthand; without a
shorthand the other edges are zero. -/
def getBox (s : Style) (c : Context) (name : Text) : Noted (Option BoxEdges) := do
  let shorthand ←
    match s.get? name with
    | none => pure none
    | some value => Resolver.attempt (Resolver.box c value)
  let top ← s.getEdge c name .top
  let right ← s.getEdge c name .right
  let bottom ← s.getEdge c name .bottom
  let left ← s.getEdge c name .left
  if top.isNone && right.isNone && bottom.isNone && left.isNone then return shorthand
  else
    return some ((shorthand.getD .zero).replace fun
      | .top => top
      | .right => right
      | .bottom => bottom
      | .left => left)

/-! ## Colours and decoration -/

def getColor (s : Style) (name : Text) : Noted (Option Color) :=
  match s.get? name with
  | none => pure none
  | some value => Color.attempt value

def backgroundColor (s : Style) : Noted (Option Color) :=
  if s.contains "background-color".toList then s.getColor "background-color".toList
  else s.getColor "background".toList

def border (s : Style) (c : Context) : Noted (Option Border) := do
  match s.get? "border".toList with
  | none => return none
  | some value => return some (← Border.read c value)

/-- The opacity from 0 to 1, given as a number or as a percentage. -/
def opacity (s : Style) (c : Context) : Noted (Option Number) := do
  match s.get? "opacity".toList with
  | none => return none
  | some value =>
    if ['%'].isSuffixOf value then
      match ← Resolver.attempt (Resolver.size c value) with
      | some (.percentage p) =>
        return some (Number.min (.double (Binary64.ofInt 1)) (← Noted.ofResult p.toFraction))
      | _ => return none
    else
      match Binary64.read? value with
      | some x => return some (Number.double x).unitShare
      | none =>
        Noted.leave "styles.declarations".toList ("Invalid opacity: ".toList ++ value.quoted)
        return none

/-- Whether a value is an integer: digits behind an optional sign. -/
def isInteger (value : Text) : Bool :=
  let digits := (splitSign value).2
  !digits.isEmpty && digits.all Text.isDigit

def zIndex (s : Style) : Noted (Option Number) := do
  match s.get? "z-index".toList with
  | none => return none
  | some value =>
    if isInteger value then return some (.int (← Noted.ofResult (readInteger value)))
    else return none

end Style

/-! ## By name -/

inductive Getter where
  | width
  | height
  | borderRadius
  | top
  | right
  | bottom
  | left
  | minWidth
  | maxWidth
  | minHeight
  | maxHeight
  | padding
  | margin
  | color
  | backgroundColor
  | border
  | opacity
  | zIndex
  deriving DecidableEq

namespace Getter

def all : List Getter :=
  [width, height, borderRadius, top, right, bottom, left, minWidth, maxWidth, minHeight, maxHeight,
    padding, margin, color, backgroundColor, border, opacity, zIndex]

def name : Getter → Text
  | width => "width".toList
  | height => "height".toList
  | borderRadius => "border_radius".toList
  | top => "top".toList
  | right => "right".toList
  | bottom => "bottom".toList
  | left => "left".toList
  | minWidth => "min_width".toList
  | maxWidth => "max_width".toList
  | minHeight => "min_height".toList
  | maxHeight => "max_height".toList
  | padding => "padding".toList
  | margin => "margin".toList
  | color => "color".toList
  | backgroundColor => "background_color".toList
  | border => "border".toList
  | opacity => "opacity".toList
  | zIndex => "z_index".toList

def ofName? (t : Text) : Option Getter := all.find? (fun g => g.name = t)

def get (g : Getter) (s : Style) (c : Context) : Noted (Option Resolved) :=
  let size (name : Text) : Noted (Option Resolved) := do
    return (← s.getSize c name).map Size.toResolved
  let pixels (name : Text) : Noted (Option Resolved) := do
    return (← s.getPixels c name).map Resolved.number
  let box (name : Text) : Noted (Option Resolved) := do
    return (← s.getBox c name).map Resolved.box
  match g with
  | width => size "width".toList
  | height => size "height".toList
  | borderRadius => size "border-radius".toList
  | top => size "top".toList
  | right => size "right".toList
  | bottom => size "bottom".toList
  | left => size "left".toList
  | minWidth => pixels "min-width".toList
  | maxWidth => pixels "max-width".toList
  | minHeight => pixels "min-height".toList
  | maxHeight => pixels "max-height".toList
  | padding => box "padding".toList
  | margin => box "margin".toList
  | color => do return (← s.getColor "color".toList).map Resolved.color
  | backgroundColor => do return (← s.backgroundColor).map Resolved.color
  | border => do return (← s.border c).map Resolved.border
  | opacity => do return (← s.opacity c).map Resolved.number
  | zIndex => do return (← s.zIndex).map Resolved.number

end Getter

end CssValues
