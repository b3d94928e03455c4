import CssValues.Entries
import CssValues.Error
import CssValues.Journal.Record
import CssValues.Number.Places
import CssValues.Text.DecimalDigit
import CssValues.Text.Word

/-!
# Written layouts

A pattern is a layout of records that a user writes: a text in which directives stand for what a
record says. A directive starts with a percent sign and ends with a letter. Between the two may
stand the name of a field in parentheses, marks, a width, a precision and a size letter, in this
order. A doubled percent sign stands for one.

Reading a pattern never fails. What is wrong in it is met when a record is written, in the order of
the text, and `Pattern.Refusal` says what it is.
-/

namespace CssValues

namespace Pattern

/-! ## Parts -/

inductive Amount where
  | given (n : Nat)
  /-- To be taken from the record. -/
  | asked

/-- The marks of a directive. -/
structure Marks where
  /-- `-`: the value stands at the left of its width. -/
  toLeft : Bool
  /-- `+`: numbers have a sign. -/
  signed : Bool
  /-- A blank in the place of a sign. -/
  spaced : Bool
  /-- `#`: numbers keep the mark of their base and their point. -/
  alternate : Bool
  /-- `0`: numbers are filled with zeros. -/
  zeros : Bool

structure Directive where
  /-- The name of a field. Without one the directive is about the record as a whole. -/
  name : Option Text
  marks : Marks
  width : Option Amount
  precision : Option Amount
  /-- How the value is written, unless the text ends before it. -/
  letter : Option Char
  /-- Where the letter stands in the pattern. -/
  place : Nat

inductive Part where
  | plain (c : Char)
  | directive (d : Directive)
  /-- A name whose parenthesis is not closed, up to the end of the pattern. -/
  | openName

end Pattern

abbrev Pattern := List Pattern.Part

namespace Pattern

/-! ## Reading -/

/-- A name from behind its opening parenthesis, and what follows the one that closes it; `depth`
parentheses are open within the name. -/
def readName? (depth : Nat) : Text → Option (Text × Text)
  | [] => none
  | c :: rest =>
    if c = ')' ∧ depth = 0 then some ([], rest)
    else
      let depth := if c = '(' then depth + 1 else if c = ')' then depth - 1 else depth
      (readName? depth rest).map fun (name, rest) => (c :: name, rest)

def isMark (c : Char) : Bool := c = '-' || c = '+' || c = ' ' || c = '#' || c = '0'

def Marks.ofText (t : Text) : Marks where
  toLeft := t.contains '-'
  signed := t.contains '+'
  spaced := t.contains ' '
  alternate := t.contains '#'
  zeros := t.contains '0'

def readAmount (t : Text) : Option Amount × Text :=
  match t with
  | '*' :: rest => (some .asked, rest)
  | _ =>
    let digits := t.takeWhile Text.isAsciiDigit
    (if digits.isEmpty then none else some (.given (Text.ofDigits digits)),
      t.dropWhile Text.isAsciiDigit)

/-- A precision behind its point. A point alone stands for none at all. -/
def readPrecision (t : Text) : Option Amount × Text :=
  match t with
  | '.' :: rest =>
    let (amount, rest) := readAmount rest
    (some (amount.getD (.given 0)), rest)
  | _ => (none, t)

/-- What follows a size letter, which says nothing. -/
def skipSize (t : Text) : Text :=
  match t with
  | c :: rest => if c = 'h' || c = 'l' || c = 'L' then rest else t
  | [] => []

/-- A directive from behind its name, in a pattern of `total` characters, and what follows. -/
def readDirective (total : Nat) (name : Option Text) (t : Text) : Directive × Text :=
  let marks := Marks.ofText (t.takeWhile isMark)
  let (width, t) := readAmount (t.dropWhile isMark)
  let (precision, t) := readPrecision t
  let t := skipSize t
  (⟨name, marks, width, precision, t.head?, total - t.length⟩, t.drop 1)

/-- The parts of a text, at most `fuel` of them, in a pattern of `total` characters. -/
def readParts (total : Nat) : Nat → Text → Pattern
  | 0, _ => []
  | _, [] => []
  | fuel + 1, '%' :: '%' :: rest => .plain '%' :: readParts total fuel rest
  | fuel + 1, '%' :: '(' :: rest =>
    match readName? 0 rest with
    | some (name, rest) =>
      let (d, rest) := readDirective total (some name) rest
      .directive d :: readParts total fuel rest
    | none => [.openName]
  | fuel + 1, c :: rest =>
    if c = '%' then
      let (d, rest) := readDirective total none rest
      .directive d :: readParts total fuel rest
    else .plain c :: readParts total fuel rest

def ofText (t : Text) : Pattern := readParts t.length t.length t

/-! ## Values -/

inductive Subject where
  | record
  | content (c : Record.Content)

def Subject.typeName : Subject → Text
  | .record => "dict".toList
  | .content (.text _) => "str".toList
  | .content (.number _) => "int".toList

/-- Why a pattern writes no record. -/
inductive Refusal where
  /-- No field is written anywhere in the pattern. -/
  | noField (pattern : Text)
  | openName
  | unknownField (name : Text)
  /-- A directive without a letter. -/
  | unfinished
  /-- A directive without a name behind one that has taken the subject. -/
  | noSubject
  /-- A width or precision is asked of something other than a number. -/
  | amountNotNumber
  | widthTooLarge
  | precisionTooLarge
  /-- A precision with which no integer is written. -/
  | tooManyDigits
  | unknownLetter (letter : Char) (place : Nat)
  | notInteger (letter : Char) (type : Text)
  | notReal (type : Text)
  | notCharacter
  | noSuchCharacter
  /-- A record as a whole has no text. -/
  | recordAsText
  | fault (f : Fault)

/-- A letter as messages show it: those beyond ASCII by a question mark. -/
def shownLetter (c : Char) : Char := if 31 ≤ c.toNat ∧ c.toNat < 127 then c else '?'

def Refusal.message : Refusal → Text
  | .noField pattern => "Invalid format '".toList ++ pattern ++ "' for '%' style".toList
  | .openName => "incomplete format key".toList
  | .unknownField name => "Formatting field not found in record: ".toList ++ name.quoted
  | .unfinished => "incomplete format".toList
  | .noSubject => "not enough arguments for format string".toList
  | .amountNotNumber => "* wants int".toList
  | .widthTooLarge => "width too big".toList
  | .precisionTooLarge => "precision too big".toList
  | .tooManyDigits => "precision too large".toList
  | .unknownLetter c place =>
    "unsupported format character '".toList ++ shownLetter c :: "' (0x".toList
      ++ Text.hex 0 c.toNat ++ ") at index ".toList ++ Text.ofNat place
  | .notInteger c type =>
    let wanted := if c = 'o' ∨ c = 'x' ∨ c = 'X' then "an integer" else "a real number"
    '%' :: c :: " format: ".toList ++ wanted.toList ++ " is required, not ".toList ++ type
  | .notReal type => "must be real number, not ".toList ++ type
  | .notCharacter => "%c requires int or char".toList
  | .noSuchCharacter => "%c arg not in range(0x110000)".toList
  | .recordAsText => "a record as a whole has no text".toList
  | .fault f => f.message

/-! ## Writing values -/

inductive Form where
  | plain
  | quoted
  | quotedAscii
  | decimal
  | octal
  | hex (upper : Bool)
  | fixed
  | scientific (upper : Bool)
  | general (upper : Bool)
  | character

def Form.ofLetter? (c : Char) : Option Form :=
  match c with
  | 's' => some .plain
  | 'r' => some .quoted
  | 'a' => some .quotedAscii
  | 'd' | 'i' | 'u' => some .decimal
  | 'o' => some .octal
  | 'x' => some (.hex false)
  | 'X' => some (.hex true)
  | 'f' | 'F' => some .fixed
  | 'e' => some (.scientific false)
  | 'E' => some (.scientific true)
  | 'g' => some (.general false)
  | 'G' => some (.general true)
  | 'c' => some .character
  | _ => none

def pad (toLeft : Bool) (width : Nat) (t : Text) : Text :=
  let fill := List.replicate (width - t.length) ' '
  if toLeft then t ++ fill else fill ++ t

/-- A numeral with its sign filled up to a width. Zeros go between the two, and behind the mark of
the base. -/
def padNumeral (m : Marks) (width : Nat) (base digits : Text) : Text :=
  let sign := if m.signed then ['+'] else if m.spaced then [' '] else []
  let lead := sign ++ base
  let zeros :=
    if m.zeros && !m.toLeft then width - (lead.length + digits.length) else 0
  pad m.toLeft width (lead ++ List.replicate zeros '0' ++ digits)

def cut (precision : Option Nat) (t : Text) : Text :=
  match precision with
  | some n => t.take n
  | none => t

def upperIf (upper : Bool) (t : Text) : Text := if upper then t.map Char.toUpper else t

/-- A form of integers: the mark of the base and the digits. -/
def integerDigits (form : Form) (n : Nat) : Text × Text :=
  match form with
  | .octal => (['0', 'o'], Nat.toDigits 8 n)
  | .hex upper => (upperIf upper ['0', 'x'], upperIf upper (Text.hex 0 n))
  | _ => ([], Text.ofNat n)

/-- The largest precision with which integers are written. -/
def maxDigits : Nat := 2147483644

/-- An integer with at least as many digits as the precision says. -/
def writeInteger (d : Directive) (form : Form) (letter : Char) (width : Nat)
    (precision : Option Nat) (subject : Subject) : Except Refusal Text :=
  match subject with
  | .content (.number n) =>
    if maxDigits < precision.getD 0 then .error .tooManyDigits
    else
      let (base, digits) := integerDigits form n
      let zeros := List.replicate (precision.getD 0 - digits.length) '0'
      .ok (padNumeral d.marks width (if d.marks.alternate then base else []) (zeros ++ digits))
  | _ => .error (.notInteger letter subject.typeName)

/-- The integer that the double nearest to an integer stands for. -/
def throughDouble (n : Nat) : Except Refusal Nat :=
  match (Number.int n).toDouble with
  | .ok x => .ok ((x.toRat?.map fun q => q.num.natAbs).getD n)
  | .error f => .error (.fault f)

def usualPlaces : Nat := 6

def writeReal (d : Directive) (form : Form) (width : Nat) (precision : Option Nat)
    (subject : Subject) : Except Refusal Text :=
  match subject with
  | .content (.number n) => do
    let n ← throughDouble n
    let places := precision.getD usualPlaces
    let keepPoint := d.marks.alternate
    let digits := match form with
      | .scientific upper => upperIf upper (scientificPlaces places keepPoint n)
      | .general upper => upperIf upper (generalPlaces (Nat.max 1 places) keepPoint n)
      | _ => fixedPlaces places keepPoint n
    return padNumeral d.marks width [] digits
  | _ => .error (.notReal subject.typeName)

/-- A single character, or the one with a number. -/
def writeCharacter (d : Directive) (width : Nat) (subject : Subject) : Except Refusal Text :=
  match subject with
  | .content (.text [c]) => .ok (pad d.marks.toLeft width [c])
  | .content (.number n) =>
    if n.isValidChar then .ok (pad d.marks.toLeft width [Char.ofNat n])
    else .error .noSuchCharacter
  | _ => .error .notCharacter

def writeText (d : Directive) (form : Form) (width : Nat) (precision : Option Nat)
    (subject : Subject) : Except Refusal Text :=
  let write (t : Text) : Text := pad d.marks.toLeft width (cut precision t)
  match subject, form with
  | .record, _ => .error .recordAsText
  | .content (.text t), .quoted => .ok (write t.quoted)
  | .content (.text t), .quotedAscii => .ok (write t.quotedAscii)
  | .content c, _ => .ok (write c.plain)

def writeValue (d : Directive) (letter : Char) (width : Nat) (precision : Option Nat)
    (subject : Subject) : Except Refusal Text :=
  match Form.ofLetter? letter with
  | none => .error (.unknownLetter letter d.place)
  | some form =>
    match form with
    | .plain | .quoted | .quotedAscii => writeText d form width precision subject
    | .decimal | .octal | .hex _ => writeInteger d form letter width precision subject
    | .fixed | .scientific _ | .general _ => writeReal d form width precision subject
    | .character => writeCharacter d width subject

/-! ## Writing records -/

def field? (name : Text) : Option Record.Field :=
  Entries.get? name
    [("name".toList, .logger), ("levelname".toList, .levelName), ("levelno".toList, .rank),
      ("message".toList, .message), ("asctime".toList, .time), ("filename".toList, .file),
      ("lineno".toList, .line)]

/-- What the directives are about in turn: a named field, or once the record as a whole. It is gone
when it has been taken. -/
abbrev Supply := Option Subject

def take (supply : Supply) : Except Refusal Subject :=
  match supply with
  | some subject => .ok subject
  | none => .error .noSubject

/-- An amount of at most `limit`; one that is asked for takes the subject. -/
def settle (limit : Nat) (tooLarge : Refusal) (amount : Option Amount) (supply : Supply) :
    Except Refusal (Option Nat × Supply) :=
  match amount with
  | none => .ok (none, supply)
  | some (.given n) => if limit < n then .error tooLarge else .ok (some n, supply)
  | some .asked => do
    match ← take supply with
    | .content (.number n) => return (some n, none)
    | _ => .error .amountNotNumber

def maxWidth : Nat := 9223372036854775807

def maxPrecision : Nat := 2147483647

/-- What a directive writes. The subject is gone afterwards. -/
def Directive.write (d : Directive) (timeFormat : Option Text) (r : Record) (supply : Supply) :
    Except Refusal Text := do
  let supply ← match d.name with
    | some name =>
      match field? name with
      | some f => pure (some (.content (r.content timeFormat f)))
      | none => .error (.unknownField name)
    | none => pure supply
  let (width, supply) ← settle maxWidth .widthTooLarge d.width supply
  let (precision, supply) ← settle maxPrecision .precisionTooLarge d.precision supply
  match d.letter with
  | some letter => writeValue d letter (width.getD 0) precision (← take supply)
  | none => .error .unfinished

def writeParts (timeFormat : Option Text) (r : Record) : Pattern → Supply → Except Refusal Text
  | [], _ => .ok []
  | .plain c :: rest, supply => do return c :: (← writeParts timeFormat r rest supply)
  | .directive d :: rest, supply => do
    let written ← d.write timeFormat r supply
    return written ++ (← writeParts timeFormat r rest none)
  | .openName :: _, _ => .error .openName

def write (p : Pattern) (timeFormat : Option Text) (r : Record) : Except Refusal Text := do
  return Record.withIncident (← writeParts timeFormat r p (some .record)) r.incident

/-! ## Patterns with a field -/

/-- What follows an amount, whose digits may be of any script. -/
def skipAmount (t : Text) : Text :=
  match t with
  | '*' :: rest => rest
  | _ => t.dropWhile Text.isDigit

/-- What follows a precision, none if there is nothing behind its point. -/
def skipPrecision? (t : Text) : Option Text :=
  match t with
  | '.' :: rest =>
    let after := skipAmount rest
    if after.length < rest.length then some after else none
  | _ => some t

/-- Whether a character is the letter of a form in either case, or one of the three letters that
have such a letter as their other case, or a percent sign. -/
def isFormLetter (c : Char) : Bool :=
  "diouxefgcrsa%".toList.contains c.toLower || [0x130, 0x131, 0x17F].contains c.toNat

/-- Whether a text starts with a directive that has a name of word characters. -/
def startsWithField (t : Text) : Bool :=
  match t with
  | '%' :: '(' :: t =>
    match t.dropWhile Text.isWordCharacter with
    | ')' :: rest =>
      let named := !(t.takeWhile Text.isWordCharacter).isEmpty
      let letter := (skipPrecision? (skipAmount (rest.dropWhile isMark))).bind List.head?
      named && letter.any isFormLetter
    | _ => false
  | _ => false

/-- Whether a directive with a name stands somewhere in a text, even behind another percent sign. -/
def hasField : Text → Bool
  | [] => false
  | c :: rest => startsWithField (c :: rest) || hasField rest

def messageOnly : Text := "%(message)s".toList

/-- Read a pattern; an empty one stands for the message alone, and one without a field is
refused. -/
def read (written : Text) : Except Refusal Pattern :=
  if written.isEmpty then .ok (ofText messageOnly)
  else if hasField written then .ok (ofText written)
  else .error (.noField written)

end Pattern

end CssValues
