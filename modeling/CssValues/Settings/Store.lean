import CssValues.Settings.Loading

/-!
# Settings in use

Settings in use are mappings and lists that refer to each other. What is set is held as it is given, and
what is looked up is handed out as it is held, so that a mapping can be held under two keys, and what is
set in it under one of them is found under the other. Loaded settings, and values that are set, are made
of new mappings.
-/

namespace CssValues

/-- What is held under a key or in a list: a value without parts, or an object by its number. -/
inductive Held where
  | null
  | bool (b : Bool)
  | number (n : Number)
  | text (t : Text)
  | object (n : Nat)

inductive Object where
  | mapping (entries : Entries Held)
  | array (items : List Held)

namespace Object

/-! ## Making -/

mutual

/-- Make the objects of a value. They come behind those that there are. -/
def make (objects : List Object) : Value → List Object × Held
  | .null => (objects, .null)
  | .bool b => (objects, .bool b)
  | .number n => (objects, .number n)
  | .text t => (objects, .text t)
  | .array items =>
    let (objects, items) := makeItems objects items
    (objects ++ [.array items], .object objects.length)
  | .mapping entries =>
    let (objects, entries) := makeEntries objects entries
    (objects ++ [.mapping entries], .object objects.length)

def makeItems (objects : List Object) : List Value → List Object × List Held
  | [] => (objects, [])
  | value :: rest =>
    let (objects, held) := make objects value
    let (objects, rest) := makeItems objects rest
    (objects, held :: rest)

def makeEntries (objects : List Object) : List (Text × Value) → List Object × Entries Held
  | [] => (objects, [])
  | (key, value) :: rest =>
    let (objects, held) := make objects value
    let (objects, rest) := makeEntries objects rest
    (objects, (key, held) :: rest)

end

/-! ## Reading -/

/-- The value that stands behind what is held, if it is not nested deeper than `depth`. -/
def readUpTo (objects : List Object) : Nat → Held → Option Value
  | _, .null => some .null
  | _, .bool b => some (.bool b)
  | _, .number n => some (.number n)
  | _, .text t => some (.text t)
  | 0, .object _ => none
  | depth + 1, .object n =>
    match objects[n]? with
    | some (.mapping entries) =>
      ((entries.map Prod.snd).mapM (readUpTo objects depth)).map fun values =>
        .mapping ((entries.map Prod.fst).zip values)
    | some (.array items) => (items.mapM (readUpTo objects depth)).map .array
    | none => none

/-! ## Paths -/

/-- The entries of a mapping, none of a list. -/
def entriesAt (objects : List Object) (n : Nat) : Entries Held :=
  match objects[n]? with
  | some (.mapping entries) => entries
  | _ => []

def mapping? (objects : List Object) : Option Held → Option Nat
  | some (.object n) =>
    match objects[n]? with
    | some (.mapping _) => some n
    | _ => none
  | _ => none

/-- What is held at the end of a path from a mapping. Only mappings lead further. -/
def find? (objects : List Object) : List Text → Nat → Option Held
  | [], _ => none
  | [key], n => (entriesAt objects n).get? key
  | key :: keys, n =>
    match mapping? objects ((entriesAt objects n).get? key) with
    | some m => find? objects keys m
    | none => none

def putAt (objects : List Object) (n : Nat) (key : Text) (held : Held) : List Object :=
  objects.set n (.mapping ((entriesAt objects n).put key held))

def putNew (objects : List Object) (n : Nat) (key : Text) : List Object :=
  putAt objects n key (.object objects.length) ++ [.mapping []]

/-- Put what is held at the end of a path from a mapping. What stands in the way of a mapping is replaced
by a new one. -/
def write (held : Held) : List Text → List Object → Nat → List Object
  | [], objects, _ => objects
  | [key], objects, n => putAt objects n key held
  | key :: keys, objects, n =>
    match mapping? objects ((entriesAt objects n).get? key) with
    | some m => write held keys objects m
    | none => write held keys (putNew objects n key) objects.length

def erase? (objects : List Object) : List Text → Nat → Option (List Object)
  | [], _ => none
  | [key], n =>
    if ((entriesAt objects n).get? key).isSome then
      some (objects.set n (.mapping ((entriesAt objects n).erase key)))
    else none
  | key :: keys, n =>
    match mapping? objects ((entriesAt objects n).get? key) with
    | some m => erase? objects keys m
    | none => none

end Object

/-- The objects that have been made, by number, and the number of the mapping with the settings. -/
structure Store where
  objects : List Object
  root : Nat

namespace Store

open Settings (path)

/-- What a caller sees in what is held, as long as it does not contain itself. -/
def read? (s : Store) (held : Held) : Option Value := Object.readUpTo s.objects s.objects.length held

/-- What is held under a key. It is handed out as it is, and can be put under another key. -/
def find? (s : Store) (key : Text) : Option Held := Object.find? s.objects (path key) s.root

def get (s : Store) (key : Text) (fallback : Value) : Option Value :=
  match s.find? key with
  | some held => s.read? held
  | none => some fallback

/-- Hold something under a key, just as it is given. -/
def put (s : Store) (key : Text) (held : Held) : Store :=
  { s with objects := Object.write held (path key) s.objects s.root }

/-- Hold a value under a key that nothing else holds. -/
def set (s : Store) (key : Text) (value : Value) : Store :=
  let (objects, held) := Object.make s.objects value
  { s with objects }.put key held

/-- Hold under a key what another one gives. -/
def share (s : Store) (key source : Text) : Store := s.put key ((s.find? source).getD .null)

/-- Drop what is held under a key; the flag says whether there was something. -/
def remove (s : Store) (key : Text) : Bool × Store :=
  match Object.erase? s.objects (path key) s.root with
  | some objects => (true, { s with objects })
  | none => (false, s)

def settings? (s : Store) : Option Settings :=
  match s.read? (.object s.root) with
  | some (.mapping entries) => some ⟨entries⟩
  | _ => none

/-- Put settings that are made of new mappings in place of those in use. -/
def hold (s : Store) (settings : Settings) : Store :=
  let (objects, entries) := Object.makeEntries s.objects settings.entries
  ⟨objects ++ [.mapping entries], objects.length⟩

def reset (s : Store) : Store := s.hold .default

/-- Lay others over the settings in use. The outcome is made of new mappings. -/
def merge (s : Store) (override : Entries Value) : Store :=
  match s.settings? with
  | some settings => s.hold (settings.merge override)
  | none => s

def load (s : Store) (path : Option Text) (file : SettingsFile) : Store × List LoadProblem :=
  let (override, problems) := file.overrideAt path
  (override.elim s.reset s.reset.merge, problems)

def empty : Store := ⟨[.mapping []], 0⟩

end Store

end CssValues
