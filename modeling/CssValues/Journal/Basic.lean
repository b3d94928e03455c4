import CssValues.Error
import CssValues.Journal.Directory
import CssValues.Journal.Template
import CssValues.Note
import CssValues.Settings.Basic

/-!
# The journal

Loggers form a tree by their dotted names: above a logger is the nearest logger that has been made
under a shorter name. A logger takes a record if its effective level, its own or that of the nearest
ancestor that has one, is not above that of the record; the record then goes to the handlers of the
logger and of all its ancestors.
-/

namespace CssValues

/-- Where a handler writes. -/
inductive Sink where
  | console (colored : Bool)
  | file (path : Text)
  /-- Nowhere. Such a handler does not make a logger one that has been set up. -/
  | null
  deriving DecidableEq

/-- A sink with the least level that it takes. -/
structure Handler where
  sink : Sink
  rank : Nat
  deriving DecidableEq

namespace Handler

def null : Handler := ⟨.null, 0⟩

def isNull (h : Handler) : Bool := h.sink = .null

end Handler

/-- A logger's own level, zero if it has none, and its own handlers. -/
structure Logger where
  rank : Nat
  handlers : List Handler
  deriving DecidableEq

namespace Logger

def fresh : Logger := ⟨0, []⟩

/-- A logger has been set up once it has a handler that writes. -/
def isSetUp (l : Logger) : Bool := l.handlers.any fun h => !h.isNull

/-- What is left of a logger without its level and the handlers that write. -/
def bared (l : Logger) : Logger := ⟨0, l.handlers.filter Handler.isNull⟩

end Logger

/-- The loggers that have been made by name, what has been written to the console, and the directory
of the log files. -/
structure Journal where
  loggers : Entries Logger
  console : Text
  directory : Directory

namespace Journal

/-! ## Names -/

def rootName : Text := "canvas_converter".toList

def loggerName (component : Text) : Text :=
  if component.isEmpty then rootName else rootName ++ '.' :: component

/-- The component that a value names. A value that counts as absent names none. -/
def componentOf (v : Value) : Text := if v.isTruthy then v.spoken else []

/-- The components that have loggers from the start. -/
def standingComponents : List Text :=
  [[], "css.calc".toList, "css.color".toList, "css.context".toList, "css.length".toList,
    "css.percentage".toList, "css.resolver".toList, "styles.declarations".toList,
    "utils.config".toList]

/-- A journal in which nothing has been set up or written. The logger above all components has a
handler that writes nothing. -/
def empty : Journal where
  loggers := standingComponents.map fun component =>
    (loggerName component, if component.isEmpty then ⟨0, [.null]⟩ else .fresh)
  console := []
  directory := .empty

/-- The places of the dots in a name, the last one first. A dot in front divides nothing. -/
def dotPlaces (name : Text) : List Nat :=
  ((List.range name.length).filter fun i => 0 < i ∧ name[i]? = some '.').reverse

/-- Places without those just below the one taken before, `above` to begin with. -/
def spacedPlaces (above : Nat) : List Nat → List Nat
  | [] => []
  | place :: rest =>
    if place + 1 = above then spacedPlaces above rest else place :: spacedPlaces place rest

/-- The names under which a logger looks for the one above it, longest first: its own up to a dot.
Of dots in a row it takes every other one. -/
def shorterNames (name : Text) : List Text := (spacedPlaces 0 (dotPlaces name)).map name.take

def logger (j : Journal) (name : Text) : Logger := (j.loggers.get? name).getD .fresh

def setLogger (j : Journal) (name : Text) (l : Logger) : Journal :=
  { j with loggers := j.loggers.put name l }

/-- The journal with a logger of this name, made if need be. -/
def withLogger (j : Journal) (name : Text) : Journal := j.setLogger name (j.logger name)

def above? (j : Journal) (name : Text) : Option Text :=
  (shorterNames name).find? fun shorter => (j.loggers.get? shorter).isSome

def lineageUpTo (j : Journal) : Nat → Text → List Text
  | 0, name => [name]
  | fuel + 1, name =>
    match j.above? name with
    | some shorter => name :: lineageUpTo j fuel shorter
    | none => [name]

/-- The names of a logger and of those above it, its own first. Each is shorter than the one
before. -/
def lineage (j : Journal) (name : Text) : List Text := j.lineageUpTo name.length name

/-! ## Writing -/

def rootRank : Nat := Level.warning.rank

/-- The level from which on a logger takes records. -/
def effectiveRank (j : Journal) (name : Text) : Nat :=
  (((j.lineage name).map fun n => (j.logger n).rank).find? (· ≠ 0)).getD rootRank

/-- The handlers that the records of a logger are offered to. -/
def handlersFor (j : Journal) (name : Text) : List Handler :=
  (j.lineage name).flatMap fun n => (j.logger n).handlers

/-- A record written to the sink of a handler, if the handler takes it. -/
def handle (r : Record) (j : Journal) (h : Handler) : Journal :=
  if r.rank < h.rank then j
  else
    match h.sink with
    | .console colored =>
      { j with console := j.console ++ Template.console.formatWith colored r ++ ['\n'] }
    | .file path =>
      { j with directory := j.directory.append path (Template.file.format r ++ ['\n']) }
    | .null => j

def emit (j : Journal) (r : Record) : Journal :=
  if r.rank < j.effectiveRank r.logger then j
  else (j.handlersFor r.logger).foldl (handle r) j

def log (j : Journal) (component : Text) (level : Level) (message : Text)
    (incident : Option Incident) : Journal :=
  (j.withLogger (loggerName component)).emit
    { logger := loggerName component, levelName := level.name, rank := level.rank, message
      incident, file := [], line := 0 }

def logIncident (j : Journal) (component : Text) (message : Text) (i : Incident) : Journal :=
  j.log component .error (message ++ ':' :: ' ' :: i.message) (some i)

/-- The notes left by a computation, as messages of the least level. -/
def logNotes (j : Journal) (notes : List Note) : Journal :=
  notes.foldl (fun j note => j.log note.component .debug note.message none) j

/-! ## Setting up -/

structure Setup where
  file : Value
  consoleLevel : Value
  fileLevel : Value
  colored : Bool

/-- The rank of the level that a value names; any other value stands for `fallback`, but lists and
mappings are refused. -/
def rankOf (fallback : Level) (v : Value) : Except Error Nat :=
  match v with
  | .text t => .ok ((Level.ofName? t).getD fallback).rank
  | .array _ | .mapping _ => .error (.unhashable v.typeName)
  | _ => .ok fallback.rank

/-- Open a log file, and make its folder before. The folder stays even if there is an error. -/
def openLog (d : Directory) (v : Value) : Directory × Except Error Text :=
  match v with
  | .text path =>
    match d.makeFolderAt (Directory.parent path) with
    | (d, .error e) => (d, .error e)
    | (d, .ok ()) =>
      match d.openFile path with
      | .error e => (d, .error e)
      | .ok d => (d, .ok path)
  | _ => (d, .error (.notPath v.typeName))

/-- A way to open the log file that a value names: the directory afterwards, and the path of the file
or why it cannot be opened. -/
abbrev Opening := Directory → Value → Directory × Except Error Text

/-- Give the logger of this name its level and its console handler, and a file handler if there is a
log file. The journal is returned in any case, together with the error if there was one. -/
def install (opening : Opening) (j : Journal) (name : Text) (s : Setup) (consoleRank : Nat)
    (fileRank : Option Nat) : Journal × Except Error Unit :=
  let rank := match fileRank with
    | some r => Nat.min consoleRank r
    | none => consoleRank
  let console : Handler := ⟨.console s.colored, consoleRank⟩
  let l := j.logger name
  let j := j.setLogger name ⟨rank, l.handlers ++ [console]⟩
  match fileRank with
  | none => (j, .ok ())
  | some fileRank =>
    match opening j.directory s.file with
    | (directory, .error e) => ({ j with directory }, .error e)
    | (directory, .ok path) =>
      let j := { j with directory }
      (j.setLogger name ⟨rank, l.handlers ++ [console, ⟨.file path, fileRank⟩]⟩, .ok ())

/-- Set up the logger of a component, unless it has been set up already. -/
def setupWith (opening : Opening) (j : Journal) (component : Text) (s : Setup) :
    Journal × Except Error Unit :=
  let name := loggerName component
  let j := j.withLogger name
  if (j.logger name).isSetUp then (j, .ok ())
  else
    match rankOf .info s.consoleLevel with
    | .error e => (j, .error e)
    | .ok consoleRank =>
      if s.file.isTruthy then
        match rankOf .debug s.fileLevel with
        | .error e => (j, .error e)
        | .ok fileRank => install opening j name s consoleRank (some fileRank)
      else install opening j name s consoleRank none

def setup : Journal → Text → Setup → Journal × Except Error Unit := setupWith openLog

/-- Take the level of the logger of a component away, and its handlers but for those that write
nothing. -/
def reset (j : Journal) (component : Text) : Journal :=
  j.setLogger (loggerName component) (j.logger (loggerName component)).bared

def Setup.default : Setup where
  file := .null
  consoleLevel := .text Level.info.name
  fileLevel := .text Level.debug.name
  colored := true

def Setup.ofSettings (s : Settings) : Setup where
  file := s.get "logging.file".toList Setup.default.file
  consoleLevel := s.get "logging.console_level".toList Setup.default.consoleLevel
  fileLevel := s.get "logging.file_level".toList Setup.default.fileLevel
  colored := Setup.default.colored

end Journal

end CssValues
