import CssValues.Component.Basic

/-!
# Writing components

Components as text that reads back as the same components: names and strings are escaped, and two
neighbours that would run together are kept apart by an empty comment.
-/

namespace CssValues

namespace Token

/-! ## Names, strings and URLs -/

/-- The escape of a line break, carriage return or form feed. -/
def breakEscape? (c : Char) : Option Text :=
  if c = '\n' then some ['\\', 'A', ' ']
  else if c = '\r' then some ['\\', 'D', ' ']
  else if c.toNat = 0x0C then some ['\\', 'C', ' ']
  else none

def nameCharCss (c : Char) : Text :=
  if isNameChar c then [c] else (breakEscape? c).getD ['\\', c]

/-- A name, wherever the characters of an identifier are expected. -/
def nameCss (name : Text) : Text := name.flatMap nameCharCss

/-- The first character of an identifier. A digit is written by its code. -/
def firstCharCss (c : Char) : Text :=
  if isNameStart c then [c]
  else
    match breakEscape? c with
    | some escape => escape
    | none =>
      if Text.isAsciiDigit c then '\\' :: '3' :: c :: [' '] else ['\\', c]

def identCss (name : Text) : Text :=
  match name with
  | [] => []
  | ['-'] => ['\\', '-']
  | '-' :: '-' :: rest => '-' :: '-' :: nameCss rest
  | '-' :: c :: rest => '-' :: firstCharCss c ++ nameCss rest
  | c :: rest => firstCharCss c ++ nameCss rest

/-- A unit behind a number. One that could be taken for an exponent has its first letter
escaped. -/
def unitCss (name : Text) : Text :=
  match name with
  | c :: rest =>
    if isExponentMark c && (rest.isEmpty || ['-'].isPrefixOf rest) then
      ['\\', '6', '5', ' '] ++ nameCss rest
    else identCss name
  | [] => []

def stringCharCss (c : Char) : Text :=
  if c = '"' || c = '\\' then ['\\', c] else (breakEscape? c).getD [c]

def urlCharCss (c : Char) : Text :=
  if c.toNat = 0x27 || c = '"' || c = '\\' || c = ' ' || c = '(' || c = ')' then ['\\', c]
  else if c = '\t' then ['\\', '9', ' ']
  else (breakEscape? c).getD [c]

def codeCss (n : Nat) : Text := (Nat.toDigits 16 n).map Char.toUpper

/-! ## Tokens -/

/-- A token as text. An end of input inside a string or URL leaves nothing to write. -/
def css : Token → Text
  | .whitespace t => t
  | .literal t => t
  | .ident name => identCss name
  | .function name => identCss name ++ ['(']
  | .atKeyword name => '@' :: identCss name
  | .hash name isIdentifier => '#' :: if isIdentifier then identCss name else nameCss name
  | .number t => t
  | .percentage t => t ++ ['%']
  | .dimension t unitName => t ++ unitCss unitName
  | .string value closed => '"' :: value.flatMap stringCharCss ++ if closed then ['"'] else []
  | .url value closed =>
    urlName ++ '(' :: value.flatMap urlCharCss ++ if closed then [')'] else []
  | .unicodeRange first last =>
    'U' :: '+' :: codeCss first ++ if first = last then [] else '-' :: codeCss last
  | .opening b => [b.opening]
  | .closing b => [b.closing]
  | .badString => "\"[bad string]\n".toList
  | .badUrl => "url([bad url])".toList
  | .endInString => []
  | .endInUrl => []

end Token

namespace Component

/-! ## Neighbours -/

/-- What a component looks like to its neighbours. -/
inductive Kind where
  | whitespace
  | ident
  | function
  | atKeyword
  | hash
  | number
  | percentage
  | dimension
  | string
  | url
  | unicodeRange
  | literal (text : Text)
  | block (b : Bracket)
  | error
  deriving DecidableEq

def kind : Component → Kind
  | .block b _ => .block b
  | .function .. => .function
  | .leaf token =>
    match token with
    | .whitespace _ => .whitespace
    | .ident _ => .ident
    | .function _ => .function
    | .atKeyword _ => .atKeyword
    | .hash .. => .hash
    | .number _ => .number
    | .percentage _ => .percentage
    | .dimension .. => .dimension
    | .string .. => .string
    | .url .. => .url
    | .unicodeRange .. => .unicodeRange
    | .literal t => .literal t
    | .opening b => .block b
    | _ => .error

namespace Kind

def char (c : Char) : Kind := .literal [c]

/-- The kinds of which the first, right before the second, would be read differently. -/
def clashes : List (List Kind × List Kind) :=
  [([.ident, .atKeyword, .hash, .dimension, char '#', char '-', .number],
      [.ident, .function, .url, .number, .percentage, .dimension, .unicodeRange]),
    ([.ident, .atKeyword, .hash, .dimension], [char '-', .literal ['-', '-', '>']]),
    ([char '#', char '-', .number, char '@'], [.ident, .function, .url]),
    ([.unicodeRange, char '.', char '+'], [.number, .percentage, .dimension]),
    ([char '@'], [.ident, .function, .url, .unicodeRange, char '-']),
    ([.unicodeRange], [.ident, .function, char '?']),
    ([char '$', char '*', char '^', char '~', char '|'], [char '=']),
    ([.ident], [.block .round]),
    ([char '|'], [char '|']),
    ([char '/'], [char '*'])]

/-- Whether two neighbours of these kinds have to be kept apart. -/
def clash (a b : Kind) : Bool :=
  clashes.any fun (before, after) => before.contains a && after.contains b

end Kind

def startsNewline : Component → Bool
  | .leaf (.whitespace ('\n' :: _)) => true
  | _ => false

/-- What has to be written between a component and the one before it, given by its kind. A backslash
on its own needs a line break behind it, or it would start an escape. -/
def separator (before : Option Kind) (c : Component) : Text :=
  match before with
  | none => []
  | some k =>
    if k.clash c.kind then ['/', '*', '*', '/']
    else if k = .char '\\' && !c.startsNewline then ['\n']
    else []

/-! ## Components -/

mutual

/-- Whether a component ends inside a string that the text did not close. -/
def endsInString : Component → Bool
  | .leaf .endInString => true
  | .function _ arguments => lastEndsInString arguments
  | _ => false

def lastEndsInString : List Component → Bool
  | [] => false
  | [c] => c.endsInString
  | _ :: c :: rest => lastEndsInString (c :: rest)

end

mutual

/-- A component as text. Blocks are closed; a function is, unless it ends inside a string. -/
def css : Component → Text
  | .leaf token => token.css
  | .block b content => b.opening :: cssAfter none content ++ [b.closing]
  | .function name arguments =>
    Token.identCss name ++ '(' :: cssAfter none arguments
      ++ if lastEndsInString arguments then [] else [')']

/-- Components as text, behind one of the given kind. -/
def cssAfter (before : Option Kind) : List Component → Text
  | [] => []
  | c :: rest => separator before c ++ c.css ++ cssAfter (some c.kind) rest

end

def listCss (components : List Component) : Text := cssAfter none components

end Component

end CssValues
