import CssValues.Value.Basic

/-!
# The edges of a box

Paddings and margins have four edges.
-/

namespace CssValues

structure BoxEdges where
  top : Number
  right : Number
  bottom : Number
  left : Number

inductive Side where
  | top
  | right
  | bottom
  | left
  deriving DecidableEq

def Side.name : Side → Text
  | .top => "top".toList
  | .right => "right".toList
  | .bottom => "bottom".toList
  | .left => "left".toList

def Side.all : List Side := [.top, .right, .bottom, .left]

namespace BoxEdges

def zero : BoxEdges := ⟨0, 0, 0, 0⟩

/-- The edges that a shorthand lists: all; vertical and horizontal; top, horizontal and bottom; or
each edge clockwise from the top. -/
def expand? : List Number → Option BoxEdges
  | [all] => some ⟨all, all, all, all⟩
  | [vertical, horizontal] => some ⟨vertical, horizontal, vertical, horizontal⟩
  | [top, horizontal, bottom] => some ⟨top, horizontal, bottom, horizontal⟩
  | [top, right, bottom, left] => some ⟨top, right, bottom, left⟩
  | _ => none

def get (box : BoxEdges) : Side → Number
  | .top => box.top
  | .right => box.right
  | .bottom => box.bottom
  | .left => box.left

/-- The box with each edge replaced for which `edges` has a number. -/
def replace (box : BoxEdges) (edges : Side → Option Number) : BoxEdges :=
  { top := (edges .top).getD box.top
    right := (edges .right).getD box.right
    bottom := (edges .bottom).getD box.bottom
    left := (edges .left).getD box.left }

/-- The box with the named edges replaced; other names count for nothing. -/
def replaceNamed (box : BoxEdges) (edges : Entries Number) : BoxEdges :=
  box.replace fun side => edges.get? side.name

/-- Whether a replacement changes nothing. An edge that is not replaced counts as unchanged even if it
is NaN. -/
def isUnchangedBy (box : BoxEdges) (edges : Entries Number) : Bool :=
  Side.all.all fun side => (edges.get? side.name).all fun n => n.equals (box.get side)

def toEntries (box : BoxEdges) : Entries Value :=
  Side.all.map fun side => (side.name, .number (box.get side))

def equals (a b : BoxEdges) : Bool := Side.all.all fun side => (a.get side).equals (b.get side)

def shown (box : BoxEdges) : Text :=
  "BoxEdges(top=".toList ++ box.top.text ++ ", right=".toList ++ box.right.text
    ++ ", bottom=".toList ++ box.bottom.text ++ ", left=".toList ++ box.left.text ++ [')']

end BoxEdges

end CssValues
