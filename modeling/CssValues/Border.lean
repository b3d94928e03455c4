import CssValues.Resolver

/-!
# Borders

A border shorthand lists a width, a line style and a colour in any order. What it does not mention
has a default, and what is none of the three is left out.
-/

namespace CssValues

structure Border where
  width : Number
  style : Text
  color : Color

namespace Border

def styles : List Text :=
  ["solid".toList, "dashed".toList, "dotted".toList, "double".toList]

def default : Border := ⟨1, "solid".toList, .black⟩

instance : Inhabited Border := ⟨default⟩

/-- The border with one part of a shorthand taken in. -/
def step (c : Context) (border : Border) (part : Text) : Noted Border := do
  match ← Resolver.attempt (Resolver.size c part) with
  | some (.pixels width) => return { border with width }
  | _ =>
    let style := Text.lower part
    if styles.contains style then return { border with style }
    else
      match ← Color.attempt part with
      | some color => return { border with color }
      | none =>
        Noted.leave "styles.declarations".toList
          ("Ignoring unknown border component ".toList ++ part.quoted)
        return border

def read (c : Context) (t : Text) : Noted Border := do
  let parts ← Noted.ofResult (shorthandParts t)
  parts.foldlM (step c) default

def equals (a b : Border) : Bool :=
  a.width.equals b.width && a.style = b.style && a.color = b.color

def shown (b : Border) : Text :=
  "BorderStyle(width=".toList ++ b.width.text ++ ", style=".toList ++ b.style.quoted
    ++ ", color=".toList ++ b.color.shown ++ [')']

end Border

end CssValues
