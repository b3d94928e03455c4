import CssValues.Text.Basic
import CssValues.Text.Table.NonPrinting

/-!
# Quoted text

How a text is shown inside messages: between quotes, with control and other non-printing characters
escaped.
-/

namespace CssValues.Text

def apostrophe : Char := Char.ofNat 0x27

def quotationMark : Char := Char.ofNat 0x22

/-- The quote that surrounds a text: an apostrophe, unless the text has apostrophes and no
quotation mark. -/
def quoteFor (t : Text) : Char :=
  if t.contains apostrophe && !t.contains quotationMark then quotationMark else apostrophe

/-- The escape of a character by its code point, as short as the code point admits. -/
def codeEscape (c : Char) : Text :=
  if c.toNat < 0x100 then '\\' :: 'x' :: hex 2 c.toNat
  else if c.toNat < 0x10000 then '\\' :: 'u' :: hex 4 c.toNat
  else '\\' :: 'U' :: hex 8 c.toNat

def escapeChar (quote : Char) (c : Char) : Text :=
  if c = quote || c = '\\' then ['\\', c]
  else if c = '\n' then ['\\', 'n']
  else if c = '\r' then ['\\', 'r']
  else if c = '\t' then ['\\', 't']
  else if nonPrinting.has c.toNat then codeEscape c
  else [c]

def quoted (t : Text) : Text :=
  quoteFor t :: t.flatMap (escapeChar (quoteFor t)) ++ [quoteFor t]

/-- A text between quotes in which everything beyond ASCII is escaped, printing or not. -/
def quotedAscii (t : Text) : Text :=
  (quoted t).flatMap fun c => if c.toNat < 0x80 then [c] else codeEscape c

end CssValues.Text
