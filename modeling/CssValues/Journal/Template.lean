import CssValues.Journal.Record

/-!
# Layouts of the journal

A template says how a record is written. The journal has one for the console and one for files. Core
Lean only.
-/

namespace CssValues

/-- A stretch of a template. -/
inductive Piece where
  | plain (t : Text)
  | field (f : Record.Field)
  deriving DecidableEq

structure Template where
  pieces : List Piece
  /-- How times are written. -/
  timeFormat : Option Text

namespace Template

def pieceText (template : Template) (r : Record) : Piece → Text
  | .plain t => t
  | .field f => (r.content template.timeFormat f).plain

def format (template : Template) (r : Record) : Text :=
  Record.withIncident (template.pieces.flatMap (template.pieceText r)) r.incident

def formatWith (template : Template) (colored : Bool) (r : Record) : Text :=
  let written := template.format r
  if colored then r.colorize written else written

def console : Template where
  pieces :=
    [.field .time, .plain " [".toList, .field .levelName, .plain "] ".toList, .field .logger,
      .plain ": ".toList, .field .message]
  timeFormat := some "%H:%M:%S".toList

/-- The layout of records in files, which tells more. -/
def file : Template where
  pieces :=
    [.field .time, .plain " [".toList, .field .levelName, .plain "] ".toList, .field .logger,
      .plain " (".toList, .field .source, .plain "): ".toList, .field .message]
  timeFormat := some "%Y-%m-%d %H:%M:%S".toList

end Template

end CssValues
