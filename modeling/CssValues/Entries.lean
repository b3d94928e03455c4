import CssValues.Text.Basic

/-!
# Ordered entries

A finite map from texts that remembers the order in which its keys came in. Writing to a key that is
present keeps its place; a new key goes to the end.
-/

namespace CssValues

/-- Key and value pairs in the order of insertion. -/
abbrev Entries (α : Type) := List (Text × α)

namespace Entries

variable {α : Type}

/-- The value of the first entry with this key. -/
def get? (key : Text) : Entries α → Option α
  | [] => none
  | (k, v) :: rest => if k = key then some v else get? key rest

/-- Write a value, in place if the key is present, else at the end. -/
def put (key : Text) (value : α) : Entries α → Entries α
  | [] => [(key, value)]
  | (k, v) :: rest => if k = key then (k, value) :: rest else (k, v) :: put key value rest

def erase (key : Text) (entries : Entries α) : Entries α :=
  entries.filter (fun entry => entry.1 ≠ key)

def keys (entries : Entries α) : List Text := entries.map Prod.fst

/-- Write the pairs one after the other onto `entries`. -/
def putAll (entries : Entries α) (pairs : List (Text × α)) : Entries α :=
  pairs.foldl (fun acc pair => acc.put pair.1 pair.2) entries

/-- The map that pairs denote, later ones winning. -/
def ofPairs (pairs : List (Text × α)) : Entries α := putAll [] pairs

/-! ## Reading what was written -/

@[simp] theorem get?_nil (key : Text) : get? key ([] : Entries α) = none := rfl

@[simp] theorem get?_put_self (key : Text) (value : α) (entries : Entries α) :
    (entries.put key value).get? key = some value := by
  induction entries with
  | nil => simp [put, get?]
  | cons entry rest ih =>
    obtain ⟨k, v⟩ := entry
    by_cases h : k = key <;> simp [put, get?, h, ih]

theorem get?_put_of_ne {key other : Text} (h : other ≠ key) (value : α) (entries : Entries α) :
    (entries.put key value).get? other = entries.get? other := by
  induction entries with
  | nil => simp [put, get?, Ne.symm h]
  | cons entry rest ih =>
    obtain ⟨k, v⟩ := entry
    by_cases hk : k = key
    · have : key ≠ other := Ne.symm h
      simp [put, get?, hk, this]
    · simp [put, get?, hk, ih]

@[simp] theorem get?_erase_self (key : Text) (entries : Entries α) :
    (entries.erase key).get? key = none := by
  induction entries with
  | nil => rfl
  | cons entry rest ih =>
    obtain ⟨k, v⟩ := entry
    by_cases h : k = key
    · simpa [erase, h] using ih
    · simpa [erase, get?, h] using ih

theorem get?_erase_of_ne {key other : Text} (h : other ≠ key) (entries : Entries α) :
    (entries.erase key).get? other = entries.get? other := by
  induction entries with
  | nil => rfl
  | cons entry rest ih =>
    obtain ⟨k, v⟩ := entry
    by_cases hk : k = key
    · have : key ≠ other := Ne.symm h
      simpa [erase, get?, hk, this] using ih
    · by_cases ho : k = other
      · simp [erase, get?, ho, h]
      · simpa [erase, get?, hk, ho] using ih

end Entries

end CssValues
