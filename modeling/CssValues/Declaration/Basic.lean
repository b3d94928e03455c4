import CssValues.Component.Css

/-!
# Declarations

A style attribute is a list of declarations, `name: value`, divided by semicolons. What is neither a
declaration nor empty is an item as well, so that it can be counted.
-/

namespace CssValues

structure Declaration where
  name : Text
  value : List Component

/-- What stands between two semicolons. -/
inductive DeclarationItem where
  | declaration (d : Declaration)
  /-- A rule behind an `@`. -/
  | rule
  | malformed

namespace Declaration

/-! ## Importance -/

/-- How much of `! important` has been read. -/
inductive Importance where
  | value
  /-- An exclamation mark, with what was read before it. -/
  | bang (before : List Component)
  /-- All of it, with what was read before it. -/
  | important (before : List Component)

def importantName : Text := "important".toList

/-- One more component of a value; `before` is what was read up to here, last one first. -/
def Importance.step (before : List Component) (state : Importance) (c : Component) : Importance :=
  match state, c with
  | .value, .leaf (.literal ['!']) => .bang before
  | .bang mark, .leaf (.ident name) =>
    if Text.asciiLower name = importantName then .important mark else .value
  | state, .leaf (.whitespace _) => state
  | _, _ => .value

def Importance.marks (state : Importance) (c : Component) : Bool :=
  match state, c with
  | .value, .leaf (.literal ['!']) => true
  | .bang _, .leaf (.ident name) => Text.asciiLower name = importantName
  | _, _ => false

/-! ## Values -/

structure ValueReading where
  /-- The components, last one first. -/
  components : List Component
  state : Importance
  /-- Something other than white space has been read. -/
  occupied : Bool
  /-- A block in curly brackets has been read behind something else. -/
  broken : Bool

namespace ValueReading

def start : ValueReading := ⟨[], .value, false, false⟩

def isCurly : Component → Bool
  | .block .curly _ => true
  | _ => false

def step (r : ValueReading) (c : Component) : ValueReading :=
  let counts := !c.isWhitespace && !r.state.marks c
  { components := c :: r.components
    state := r.state.step r.components c
    occupied := r.occupied || counts
    broken := r.broken || (counts && isCurly c && r.occupied) }

/-- The components of the value, without an importance mark at the end. -/
def value (r : ValueReading) : List Component :=
  match r.state with
  | .important before => before.reverse
  | _ => r.components.reverse

end ValueReading

/-- The components of a value, unless it has a block in curly brackets behind something else. -/
def readValue? (components : List Component) : Option (List Component) :=
  let r := components.foldl ValueReading.step .start
  if r.broken then none else some r.value

/-- The declaration that components up to a semicolon make up: a name, a colon, and the value. -/
def read (components : List Component) : DeclarationItem :=
  match components with
  | .leaf (.ident name) :: rest =>
    match rest.dropWhile Component.isWhitespace with
    | colon :: rest =>
      if colon.isLiteral ':' then
        match readValue? rest with
        | some value => .declaration ⟨Text.asciiLower name, value⟩
        | none => .malformed
      else .malformed
    | [] => .malformed
  | _ => .malformed

end Declaration

namespace DeclarationItem

/-- What follows a rule: it ends with a semicolon or a block in curly brackets. -/
def skipRule : List Component → List Component
  | [] => []
  | c :: rest =>
    if c.isLiteral ';' || Declaration.ValueReading.isCurly c then rest else skipRule rest

theorem length_skipRule_le (components : List Component) :
    (skipRule components).length ≤ components.length := by
  induction components with
  | nil => simp [skipRule]
  | cons c rest ih =>
    unfold skipRule
    split
    · simp
    · simp only [List.length_cons]; omega

def ofComponents (components : List Component) : List DeclarationItem :=
  match components with
  | [] => []
  | c :: rest =>
    if c.isWhitespace || c.isLiteral ';' then ofComponents rest
    else
      match c with
      | .leaf (.atKeyword _) => .rule :: ofComponents (skipRule rest)
      | _ =>
        Declaration.read (c :: rest.takeWhile (fun d => !d.isLiteral ';'))
          :: ofComponents ((rest.dropWhile (fun d => !d.isLiteral ';')).drop 1)
termination_by components.length
decreasing_by
  · simp
  · have := length_skipRule_le rest
    simp only [List.length_cons]
    omega
  · have := (List.dropWhile_suffix (l := rest) (fun d => !d.isLiteral ';')).length_le
    simp only [List.length_drop, List.length_cons]
    omega

def ofText (t : Text) : Except Fault (List DeclarationItem) := do
  return ofComponents (← Component.ofText t)

end DeclarationItem

end CssValues
