import CssValues.Text.Quoted

/-!
# Log records

A record is one message with its level and origin.
-/

namespace CssValues

/-! ## Levels -/

inductive Level where
  | debug
  | info
  | warning
  | error
  | critical
  deriving DecidableEq

namespace Level

def all : List Level := [debug, info, warning, error, critical]

def rank : Level → Nat
  | debug => 10
  | info => 20
  | warning => 30
  | error => 40
  | critical => 50

def name : Level → Text
  | debug => "DEBUG".toList
  | info => "INFO".toList
  | warning => "WARNING".toList
  | error => "ERROR".toList
  | critical => "CRITICAL".toList

def ofName? (t : Text) : Option Level := all.find? (fun level => level.name = t)

/-- The code that switches a terminal to the given style. -/
def terminalCode (style : Nat) : Text := Char.ofNat 0x1B :: '[' :: Text.ofNat style ++ ['m']

/-- The codes of a level's colour; a critical level is also bold. -/
def colorCodes : Level → Text
  | debug => terminalCode 34
  | info => terminalCode 32
  | warning => terminalCode 33
  | error => terminalCode 31
  | critical => terminalCode 31 ++ terminalCode 1

end Level

/-! ## Records -/

/-- A failure that a record reports, by its kind and message. -/
structure Incident where
  kind : Text
  message : Text

/-- An incident of a kind. A key that is missing is quoted in the message. -/
def Incident.ofKind (kind text : Text) : Incident :=
  ⟨kind, if kind = "KeyError".toList then text.quoted else text⟩

/-- The message that an incident is reported with if there is none of its own. -/
def Incident.defaultMessage : Text := "An exception occurred".toList

/-- The last line of the report of an incident. -/
def Incident.line (i : Incident) : Text :=
  if i.message.isEmpty then i.kind else i.kind ++ ':' :: ' ' :: i.message

structure Record where
  logger : Text
  levelName : Text
  rank : Nat
  message : Text
  incident : Option Incident
  file : Text
  line : Nat

namespace Record

/-! ## Fields -/

inductive Field where
  | logger
  | levelName
  | rank
  | message
  | time
  | file
  | line
  /-- File and line in one. -/
  | source
  deriving DecidableEq

inductive Content where
  | text (t : Text)
  | number (n : Nat)
  deriving DecidableEq

def Content.plain : Content → Text
  | .text t => t
  | .number n => Text.ofNat n

/-- A time. Only its format is shown. -/
def time (format : Option Text) : Text := '<' :: format.getD "None".toList ++ ['>']

/-- What a record says in a field, times being written in the given format. -/
def content (r : Record) (timeFormat : Option Text) : Field → Content
  | .logger => .text r.logger
  | .levelName => .text r.levelName
  | .rank => .number r.rank
  | .message => .text r.message
  | .time => .text (time timeFormat)
  | .file => .text r.file
  | .line => .number r.line
  | .source => .text "<source>".toList

/-! ## Finishing touches -/

def withIncident (t : Text) : Option Incident → Text
  | none => t
  | some i => (if t.getLast? = some '\n' then t else t ++ ['\n']) ++ i.line

/-- A text with the first occurrence of `old` replaced. -/
def replaceFirst (old new : Text) : Text → Text
  | [] => if old.isEmpty then new else []
  | c :: rest =>
    if old.isPrefixOf (c :: rest) then new ++ (c :: rest).drop old.length
    else c :: replaceFirst old new rest

/-- A written record with the name of its level in colour, where it stands first. -/
def colorize (r : Record) (written : Text) : Text :=
  match Level.ofName? r.levelName with
  | some level =>
    replaceFirst r.levelName (level.colorCodes ++ r.levelName ++ Level.terminalCode 0) written
  | none => written

end Record

end CssValues
