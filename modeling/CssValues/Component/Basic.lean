import CssValues.Token.Scan

/-!
# Components

Tokens with the brackets matched: a component is a single token, a bracketed block, or a function
with its arguments. A closing bracket that matches nothing stays a token of its own, and what is
open at the end is closed there.
-/

namespace CssValues

inductive Component where
  | leaf (token : Token)
  | block (bracket : Bracket) (content : List Component)
  | function (name : Text) (arguments : List Component)

namespace Component

/-- What opened a list of components. -/
inductive Opener where
  | bracket (b : Bracket)
  | function (name : Text)

namespace Opener

def closer : Opener → Bracket
  | .bracket b => b
  | .function _ => .round

def close (content : List Component) : Opener → Component
  | .bracket b => .block b content
  | .function name => .function name content

end Opener

/-- Components read so far, last one first: those of the innermost open list, and of each open list
around it with what opened the list inside. -/
structure Reading where
  current : List Component
  around : List (Opener × List Component)

namespace Reading

def start : Reading := ⟨[], []⟩

def enter (r : Reading) (o : Opener) : Reading := ⟨[], (o, r.current) :: r.around⟩

def push (r : Reading) (c : Component) : Reading := ⟨c :: r.current, r.around⟩

/-- Close the innermost list if `b` closes it; otherwise `b` matches nothing. -/
def close (r : Reading) (b : Bracket) : Reading :=
  match r.around with
  | (o, before) :: around =>
    if o.closer = b then ⟨o.close r.current.reverse :: before, around⟩
    else r.push (.leaf (.closing b))
  | [] => r.push (.leaf (.closing b))

def step (r : Reading) : Token → Reading
  | .opening b => r.enter (.bracket b)
  | .function name => r.enter (.function name)
  | .closing b => r.close b
  | token => r.push (.leaf token)

/-- All components, in order; what is open is closed. -/
def finish (r : Reading) : List Component :=
  (r.around.foldl (fun current frame => frame.1.close current.reverse :: frame.2) r.current).reverse

end Reading

def ofTokens (tokens : List Token) : List Component :=
  (tokens.foldl Reading.step .start).finish

def ofText (t : Text) : Except Fault (List Component) := do
  return ofTokens (← Token.ofText t)

def isWhitespace : Component → Bool
  | .leaf (.whitespace _) => true
  | _ => false

/-- Whether a component is the given character, standing for itself. -/
def isLiteral (c : Char) : Component → Bool
  | .leaf (.literal t) => t = [c]
  | _ => false

end Component

end CssValues
