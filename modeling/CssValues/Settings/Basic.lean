import CssValues.Value.Basic

/-!
# Settings

Settings are a tree of mappings whose leaves are found by dotted paths. Here they are values: what is set
is a copy. In use they are mappings that can be shared (`Store`), which comes to the same as long as none
is held twice.
-/

namespace CssValues

structure Settings where
  entries : Entries Value

namespace Settings

/-- The keys that a dotted path leads through. -/
def path (key : Text) : List Text := Text.splitWhere (· == '.') key

/-! ## Paths -/

/-- The value at the end of a path. Only mappings lead further. -/
def find? : List Text → Entries Value → Option Value
  | [], _ => none
  | [key], entries => entries.get? key
  | key :: keys, entries =>
    match entries.get? key with
    | some (.mapping inner) => find? keys inner
    | _ => none

/-- The entries of a mapping, none of any other value. -/
def innerEntries : Option Value → Entries Value
  | some (.mapping inner) => inner
  | _ => []

/-- Write the value at the end of a path. What stands in the way of a mapping is replaced by one. -/
def write : List Text → Value → Entries Value → Entries Value
  | [], _, entries => entries
  | [key], value, entries => entries.put key value
  | key :: keys, value, entries =>
    entries.put key (.mapping (write keys value (innerEntries (entries.get? key))))

def erase? : List Text → Entries Value → Option (Entries Value)
  | [], _ => none
  | [key], entries => if (entries.get? key).isSome then some (entries.erase key) else none
  | key :: keys, entries =>
    match entries.get? key with
    | some (.mapping inner) =>
      (erase? keys inner).map fun inner => entries.put key (.mapping inner)
    | _ => none

/-! ## Merging -/

mutual

/-- A value laid over another: two mappings are merged, anything else is replaced. -/
def overlay (below : Option Value) : Value → Value
  | .mapping entries =>
    match below with
    | some (.mapping inner) => .mapping (mergeInto inner entries)
    | _ => .mapping entries
  | value => value

/-- Entries laid over others, one after the other. -/
def mergeInto (below : Entries Value) : List (Text × Value) → Entries Value
  | [] => below
  | (key, value) :: rest => mergeInto (below.put key (overlay (below.get? key) value)) rest

end

/-! ## Operations -/

def default : Settings where
  entries :=
    [("context".toList, .mapping
        [("viewport_width".toList, .number 1920), ("viewport_height".toList, .number 1080),
          ("font_size".toList, .number 16)]),
      ("logging".toList, .mapping
        [("console_level".toList, .text "INFO".toList), ("file".toList, .null),
          ("file_level".toList, .text "DEBUG".toList)])]

def get (s : Settings) (key : Text) (fallback : Value) : Value :=
  (find? (path key) s.entries).getD fallback

def set (s : Settings) (key : Text) (value : Value) : Settings :=
  ⟨write (path key) value s.entries⟩

/-- Drop the value under a dotted key; the flag says whether there was one. -/
def remove (s : Settings) (key : Text) : Bool × Settings :=
  match erase? (path key) s.entries with
  | some entries => (true, ⟨entries⟩)
  | none => (false, s)

def merge (s : Settings) (override : Entries Value) : Settings := ⟨mergeInto s.entries override⟩

end Settings

end CssValues
