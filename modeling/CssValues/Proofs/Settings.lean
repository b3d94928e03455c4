import CssValues.Proofs.Text.Trim
import CssValues.Settings.Basic
import Mathlib.Data.List.Infix

/-!
# Dotted paths in settings

A path leads from a value through mappings to another value (`Value.at?`). Writing at a path puts the
value at its end and mappings on the way to it; dropping takes away what the path leads to. Neither is
seen from a path that parts from it before either path ends (`Settings.get_set_of_apart`,
`Settings.get_remove_of_apart`).
-/

namespace CssValues

/-! ## Where a path leads -/

/-- What a path leads to from a value: to the value itself at the end of the path, and to nothing
through what is no mapping or has no such key. -/
def Value.at? : Value → List Text → Option Value
  | v, [] => some v
  | .mapping entries, key :: keys => (Entries.get? key entries).bind fun v => v.at? keys
  | _, _ :: _ => none

namespace Value

theorem at?_nil (v : Value) : v.at? [] = some v := by
  cases v <;> rfl

theorem at?_mapping (entries : Entries Value) (key : Text) (keys : List Text) :
    (mapping entries).at? (key :: keys) = (entries.get? key).bind fun v => v.at? keys := rfl

/-- The first part of a path can be gone first. -/
theorem at?_append (v : Value) (p q : List Text) :
    v.at? (p ++ q) = (v.at? p).bind fun w => w.at? q := by
  induction p generalizing v with
  | nil => rw [List.nil_append, at?_nil, Option.bind_some]
  | cons key keys ih =>
    cases v with
    | mapping entries =>
      rw [List.cons_append, at?_mapping, at?_mapping, Option.bind_assoc]
      exact congrArg _ (funext ih)
    | _ => rfl

/-- The entries of a mapping lead where the mapping leads; in place of anything else there are no
entries, which lead nowhere. -/
theorem at?_innerEntries (v? : Option Value) (key : Text) (keys : List Text) :
    (mapping (Settings.innerEntries v?)).at? (key :: keys)
      = v?.bind fun v => v.at? (key :: keys) := by
  cases v? with
  | none => rfl
  | some v => cases v <;> rfl

end Value

namespace Settings

open Value (at?_nil at?_mapping at?_append at?_innerEntries)

variable {p q : List Text} {value : Value} {entries written : Entries Value}

/-- Every key, the empty one included, leads through at least one mapping. -/
theorem path_ne_nil (key : Text) : path key ≠ [] := Text.splitWhere_ne_nil _ key

theorem find?_eq (hp : p ≠ []) (entries : Entries Value) :
    find? p entries = (Value.mapping entries).at? p := by
  fun_induction find? p entries with
  | case1 => exact absurd rfl hp
  | case2 entries key =>
    rw [at?_mapping, funext at?_nil, Option.bind_fun_some]
  | case3 key keys entries hkeys inner hinner ih => rw [ih hkeys, at?_mapping, hinner]; rfl
  | case4 key keys entries hkeys hnot =>
    rw [at?_mapping]
    cases hget : entries.get? key with
    | none => rfl
    | some v =>
      obtain ⟨next, more, rfl⟩ := List.exists_cons_of_ne_nil hkeys
      cases v with
      | mapping inner => exact absurd hget (hnot inner)
      | _ => rfl

/-! ## Writing -/

/-- A path that was written leads to what was written at its end. -/
theorem at?_write_self (hp : p ≠ []) (value : Value) (entries : Entries Value) :
    (Value.mapping (write p value entries)).at? p = some value := by
  fun_induction write p value entries with
  | case1 => exact absurd rfl hp
  | case2 key value entries => rw [at?_mapping, Entries.get?_put_self, Option.bind_some, at?_nil]
  | case3 key keys value entries hkeys ih =>
    rw [at?_mapping, Entries.get?_put_self, Option.bind_some, ih hkeys]

/-- Two paths part before either of them ends. -/
def Apart (p q : List Text) : Prop := ¬p <+: q ∧ ¬q <+: p

theorem Apart.of_cons {key : Text} {p q : List Text} (h : Apart (key :: p) (key :: q)) :
    Apart p q :=
  ⟨fun hpq => h.1 (List.cons_prefix_cons.mpr ⟨rfl, hpq⟩),
    fun hqp => h.2 (List.cons_prefix_cons.mpr ⟨rfl, hqp⟩)⟩

theorem Apart.ne_nil (h : Apart p q) : q ≠ [] := by
  rintro rfl
  exact h.2 (List.nil_prefix)

/-- **Frame.** A path that parts from the one written leads where it led. -/
theorem at?_write_of_apart (h : Apart p q) (value : Value) (entries : Entries Value) :
    (Value.mapping (write p value entries)).at? q = (Value.mapping entries).at? q := by
  fun_induction write p value entries generalizing q with
  | case1 => rfl
  | case2 key value entries =>
    obtain ⟨k, ks, rfl⟩ := List.exists_cons_of_ne_nil h.ne_nil
    have hk : k ≠ key := by
      rintro rfl
      exact h.1 (List.cons_prefix_cons.mpr ⟨rfl, List.nil_prefix⟩)
    rw [at?_mapping, at?_mapping, Entries.get?_put_of_ne hk]
  | case3 key keys value entries hkeys ih =>
    obtain ⟨k, ks, rfl⟩ := List.exists_cons_of_ne_nil h.ne_nil
    by_cases hk : k = key
    · -- below the common key the paths part further on, so `q` sees only what was kept there
      subst hk
      have hrest := h.of_cons
      obtain ⟨l, ls, rfl⟩ := List.exists_cons_of_ne_nil hrest.ne_nil
      rw [at?_mapping, Entries.get?_put_self, Option.bind_some, ih hrest, at?_innerEntries,
        at?_mapping]
    · rw [at?_mapping, at?_mapping, Entries.get?_put_of_ne hk]

/-! ## Dropping -/

/-- **Frame.** A path that parts from the one dropped leads where it led. -/
theorem at?_erase?_of_apart (happart : Apart p q) (h : erase? p entries = some written) :
    (Value.mapping written).at? q = (Value.mapping entries).at? q := by
  fun_induction erase? p entries generalizing written q with
  | case1 => cases h
  | case2 key entries _ =>
    cases h
    obtain ⟨k, ks, rfl⟩ := List.exists_cons_of_ne_nil happart.ne_nil
    have hk : k ≠ key := by
      rintro rfl
      exact happart.1 (List.cons_prefix_cons.mpr ⟨rfl, List.nil_prefix⟩)
    rw [at?_mapping, at?_mapping, Entries.get?_erase_of_ne hk]
  | case3 => cases h
  | case4 key keys entries hkeys inner hinner ih =>
    obtain ⟨below, hbelow, rfl⟩ := Option.map_eq_some_iff.mp h
    obtain ⟨k, ks, rfl⟩ := List.exists_cons_of_ne_nil happart.ne_nil
    rw [at?_mapping, at?_mapping]
    by_cases hk : k = key
    · subst hk
      rw [Entries.get?_put_self, Option.bind_some, ih happart.of_cons hbelow, hinner]
      rfl
    · rw [Entries.get?_put_of_ne hk]
  | case5 => cases h

/-! ## Keys -/

section

variable {s : Settings} {key other : Text}

theorem get_eq (s : Settings) (key : Text) (fallback : Value) :
    s.get key fallback = ((Value.mapping s.entries).at? (path key)).getD fallback := by
  rw [get, find?_eq (path_ne_nil key)]

/-- The settings hold a value under a key, whatever is asked for in its place: nothing, too, can be
a value. -/
def Holds (s : Settings) (key : Text) (value : Value) : Prop :=
  ∀ fallback, s.get key fallback = value

theorem holds_iff : s.Holds key value ↔ (Value.mapping s.entries).at? (path key) = some value := by
  constructor
  · intro h
    cases hat : (Value.mapping s.entries).at? (path key) with
    | none =>
      -- two fallbacks that differ cannot both be the value
      have hnull := h .null
      have hbool := h (.bool true)
      rw [get_eq, hat, Option.getD_none] at hnull hbool
      rw [← hnull] at hbool
      cases hbool
    | some v => rw [← h .null, get_eq, hat, Option.getD_some]
  · intro h fallback
    rw [get_eq, h, Option.getD_some]

/-- What is set is held. -/
theorem holds_set (s : Settings) (key : Text) (value : Value) : (s.set key value).Holds key value :=
  holds_iff.mpr (at?_write_self (path_ne_nil key) value s.entries)

theorem get_set_of_apart (h : Apart (path key) (path other)) (s : Settings) (value fallback : Value) :
    (s.set key value).get other fallback = s.get other fallback := by
  rw [get_eq, get_eq, set, at?_write_of_apart h]

theorem get_remove_of_apart (h : Apart (path key) (path other)) (s : Settings) (fallback : Value) :
    (s.remove key).2.get other fallback = s.get other fallback := by
  unfold remove
  split
  · next written hwritten => rw [get_eq, get_eq, at?_erase?_of_apart h hwritten]
  · rfl

end

end Settings

end CssValues
