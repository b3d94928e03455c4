import CssValues.Text.Basic

/-!
# Tokens of style text

The tokens that style text consists of, comments apart, and the character classes that tell them
apart.
-/

namespace CssValues

inductive Bracket where
  | round
  | square
  | curly
  deriving DecidableEq

namespace Bracket

def opening : Bracket → Char
  | .round => '('
  | .square => '['
  | .curly => Char.ofNat 0x7B

def closing : Bracket → Char
  | .round => ')'
  | .square => ']'
  | .curly => Char.ofNat 0x7D

def all : List Bracket := [.round, .square, .curly]

def ofOpening? (c : Char) : Option Bracket := all.find? (fun b => b.opening = c)

def ofClosing? (c : Char) : Option Bracket := all.find? (fun b => b.closing = c)

end Bracket

inductive Token where
  | whitespace (text : Text)
  | ident (name : Text)
  /-- A name with an opening parenthesis right behind it. -/
  | function (name : Text)
  | atKeyword (name : Text)
  /-- A name behind `#`; the flag says whether it could stand alone as an identifier. -/
  | hash (name : Text) (isIdentifier : Bool)
  | number (text : Text)
  | percentage (text : Text)
  | dimension (text : Text) (unitName : Text)
  /-- A string; one that ends with the text is not closed. -/
  | string (value : Text) (closed : Bool)
  | url (value : Text) (closed : Bool)
  | unicodeRange (first last : Nat)
  | opening (b : Bracket)
  | closing (b : Bracket)
  /-- Any other character, and a few pairs and triples of characters. -/
  | literal (text : Text)
  | badString
  | badUrl
  /-- The text ended inside a string. -/
  | endInString
  /-- The text ended inside a URL. -/
  | endInUrl
  deriving DecidableEq

namespace Token

/-! ## Character classes -/

/-- White space between tokens: spaces, tabs and line breaks only. -/
def isSpace (c : Char) : Bool := c == ' ' || c == '\n' || c == '\t'

def isNonAscii (c : Char) : Bool := 0x7F < c.toNat

def isNameStart (c : Char) : Bool := Text.isLetter c || c == '_' || isNonAscii c

def isNameChar (c : Char) : Bool := isNameStart c || Text.isAsciiDigit c || c == '-'

/-- Whether a backslash and the text behind it are an escape. Only a line break is none. -/
def startsEscape : Text → Bool
  | '\\' :: '\n' :: _ => false
  | '\\' :: _ => true
  | _ => false

def startsIdent : Text → Bool
  | [] => false
  | '-' :: '-' :: _ => true
  | '-' :: c :: rest => isNameStart c || startsEscape (c :: rest)
  | '-' :: [] => false
  | c :: rest => isNameStart c || startsEscape (c :: rest)

/-! ## Line breaks -/

/-- The text with one kind of line break, and without null characters. -/
def normalize : Text → Text
  | [] => []
  | '\r' :: '\n' :: rest => '\n' :: normalize rest
  | c :: rest =>
    (if c = '\r' || c.toNat = 0x0C then '\n'
      else if c.toNat = 0 then Char.ofNat 0xFFFD
      else c) :: normalize rest

end Token

end CssValues
