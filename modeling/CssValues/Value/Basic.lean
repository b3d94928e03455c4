import CssValues.Entries
import CssValues.Number.Layout
import CssValues.Text.Quoted

/-!
# Values of any kind

Settings and callers' arguments hold values of any kind: nothing, a truth value, a number, a text, a
list, or a mapping. `Value.shown` is the form of messages; `Value.equals` compares numbers by value
and mappings regardless of order.
-/

namespace CssValues

inductive Value where
  | null
  | bool (b : Bool)
  | number (n : Number)
  | text (t : Text)
  | array (items : List Value)
  | mapping (entries : List (Text × Value))

namespace Value

instance : Inhabited Value := ⟨.null⟩

def typeName : Value → Text
  | .null => "NoneType".toList
  | .bool _ => "bool".toList
  | .number (.int _) => "int".toList
  | .number (.double _) => "float".toList
  | .text _ => "str".toList
  | .array _ => "list".toList
  | .mapping _ => "dict".toList

/-! ## The form of messages -/

mutual

def shown : Value → Text
  | .null => "None".toList
  | .bool true => "True".toList
  | .bool false => "False".toList
  | .number n => n.text
  | .text t => t.quoted
  | .array items => '[' :: Text.join [',', ' '] (shownItems items) ++ [']']
  | .mapping entries =>
    Char.ofNat 0x7B :: Text.join [',', ' '] (shownEntries entries) ++ [Char.ofNat 0x7D]

def shownItems : List Value → List Text
  | [] => []
  | v :: rest => v.shown :: shownItems rest

def shownEntries : List (Text × Value) → List Text
  | [] => []
  | (k, v) :: rest => (k.quoted ++ ':' :: ' ' :: v.shown) :: shownEntries rest

end

/-- A value within running text: a text as it stands, anything else as messages show it. -/
def spoken : Value → Text
  | .text t => t
  | v => v.shown

/-! ## Equality -/

/-- The number that a value counts as in comparisons: a truth value counts as `0` or `1`. -/
def numeric? : Value → Option Number
  | .number n => some n
  | .bool b => some (.int b.toNat)
  | _ => none

mutual

/-- Equality of values. Kinds differ, except that truth values are numbers. -/
def equals : Value → Value → Bool
  | .null, .null => true
  | .text s, .text t => s = t
  | .array xs, .array ys => equalItems xs ys
  | .mapping es, .mapping fs => es.length = fs.length && equalEntries es fs
  | .bool a, w =>
    match w.numeric? with
    | some n => (Number.int a.toNat).equals n
    | none => false
  | .number a, w =>
    match w.numeric? with
    | some n => a.equals n
    | none => false
  | _, _ => false

def equalItems : List Value → List Value → Bool
  | [], [] => true
  | x :: xs, y :: ys => x.equals y && equalItems xs ys
  | _, _ => false

/-- Whether each entry has an equal one under the same key. -/
def equalEntries : List (Text × Value) → List (Text × Value) → Bool
  | [], _ => true
  | (k, v) :: rest, fs =>
    (match Entries.get? k fs with
      | some w => v.equals w
      | none => false)
    && equalEntries rest fs

end

/-- Whether a value counts as present: not nothing, not false, not zero and not empty. -/
def isTruthy : Value → Bool
  | .null => false
  | .bool b => b
  | .number n => !n.equals 0
  | .text t => !t.isEmpty
  | .array items => !items.isEmpty
  | .mapping entries => !entries.isEmpty

end Value

end CssValues
