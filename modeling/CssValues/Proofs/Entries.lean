import CssValues.Entries
import Mathlib.Data.List.Induction
import Mathlib.Data.List.Nodup
import Mathlib.Tactic.Tauto

/-!
# Ordered entries as a map

Writing keeps the keys distinct and puts a new key behind the others (`keys_put`); dropping a key keeps
the order of the others (`keys_erase`). Writing a map of pairs onto entries comes to writing the pairs
one after the other (`putAll_ofPairs`).
-/

namespace CssValues.Entries

variable {α β : Type} {entries : Entries α} {key : Text} {value : α}

/-! ## Keys -/

theorem keys_cons (entry : Text × α) (rest : Entries α) :
    keys (entry :: rest) = entry.1 :: keys rest := rfl

theorem keys_append (e f : Entries α) : keys (e ++ f) = keys e ++ keys f := List.map_append

theorem get?_eq_none_iff : entries.get? key = none ↔ key ∉ entries.keys := by
  induction entries with
  | nil => simp [keys]
  | cons entry rest ih =>
    obtain ⟨k, v⟩ := entry
    by_cases h : k = key
    · simp [get?, keys_cons, h]
    · have hne : ¬key = k := fun heq => h heq.symm
      simp [get?, keys_cons, h, hne, ih]

theorem isSome_get?_iff : (entries.get? key).isSome = true ↔ key ∈ entries.keys := by
  rw [Option.isSome_iff_ne_none, Ne, get?_eq_none_iff, not_not]

theorem mem_of_get? (h : entries.get? key = some value) : (key, value) ∈ entries := by
  induction entries with
  | nil => cases h
  | cons entry rest ih =>
    obtain ⟨k, v⟩ := entry
    unfold get? at h
    split at h
    · next heq =>
      rw [heq, Option.some.inj h]
      exact List.mem_cons_self
    · exact List.mem_cons_of_mem _ (ih h)

theorem get?_of_mem (hnodup : entries.keys.Nodup) (h : (key, value) ∈ entries) :
    entries.get? key = some value := by
  induction entries with
  | nil => cases h
  | cons entry rest ih =>
    obtain ⟨k, v⟩ := entry
    obtain ⟨hk, hrest⟩ := List.nodup_cons.mp hnodup
    rcases List.mem_cons.mp h with heq | h
    · cases heq
      rw [get?, if_pos rfl]
    · have hne : k ≠ key := by
        rintro rfl
        exact hk (List.mem_map.mpr ⟨_, h, rfl⟩)
      rw [get?, if_neg hne, ih hrest h]

theorem get?_congr {k : Text} (h : ∀ name ∈ entries.keys, k = name ↔ key = name) :
    entries.get? k = entries.get? key := by
  induction entries with
  | nil => rfl
  | cons entry rest ih =>
    obtain ⟨name, v⟩ := entry
    obtain ⟨hname, hrest⟩ := List.forall_mem_cons.mp h
    have hfirst : name = k ↔ name = key := by rw [eq_comm, hname, eq_comm]
    rw [get?, get?, ih hrest]
    simp only [hfirst]

theorem put_of_notMem (h : key ∉ entries.keys) (value : α) :
    entries.put key value = entries ++ [(key, value)] := by
  induction entries with
  | nil => rfl
  | cons entry rest ih =>
    obtain ⟨k, v⟩ := entry
    rw [keys_cons, List.mem_cons, not_or] at h
    rw [put, if_neg (Ne.symm h.1), ih h.2]
    rfl

theorem keys_put_of_mem (h : key ∈ entries.keys) (value : α) :
    (entries.put key value).keys = entries.keys := by
  induction entries with
  | nil => cases h
  | cons entry rest ih =>
    obtain ⟨k, v⟩ := entry
    unfold put
    split
    · rfl
    · next hne =>
      rw [keys_cons, keys_cons, ih]
      exact (List.mem_cons.mp h).resolve_left fun heq => hne heq.symm

theorem keys_put (entries : Entries α) (key : Text) (value : α) : (entries.put key value).keys
    = if key ∈ entries.keys then entries.keys else entries.keys ++ [key] := by
  split
  · next h => exact keys_put_of_mem h value
  · next h => rw [put_of_notMem h, keys_append]; rfl

theorem mem_keys_put {k : Text} :
    k ∈ (entries.put key value).keys ↔ k = key ∨ k ∈ entries.keys := by
  rw [keys_put]
  split
  · next h => exact ⟨.inr, fun hk => hk.elim (fun heq => heq ▸ h) id⟩
  · simp [or_comm]

theorem nodup_keys_put (h : entries.keys.Nodup) (key : Text) (value : α) :
    (entries.put key value).keys.Nodup := by
  rw [keys_put]
  split
  · exact h
  · next hnot =>
    refine List.nodup_append.mpr ⟨h, List.nodup_singleton _, fun a ha b hb => ?_⟩
    rw [List.mem_singleton.mp hb]
    exact fun heq => hnot (heq ▸ ha)

theorem keys_erase (entries : Entries α) (key : Text) :
    (entries.erase key).keys = entries.keys.filter (fun k => k ≠ key) := by
  rw [erase, keys, keys, List.filter_map]
  rfl

theorem nodup_keys_erase (h : entries.keys.Nodup) (key : Text) :
    (entries.erase key).keys.Nodup := by
  rw [keys_erase]
  exact h.filter _

theorem erase_of_notMem (h : key ∉ entries.keys) : entries.erase key = entries := by
  refine List.filter_eq_self.mpr fun entry hentry => ?_
  simpa using fun heq : entry.1 = key => h (heq ▸ List.mem_map_of_mem hentry)

theorem mem_put {p : Text × α} (h : p ∈ entries.put key value) :
    p = (key, value) ∨ p ∈ entries := by
  induction entries with
  | nil => exact .inl (List.mem_singleton.mp h)
  | cons entry rest ih =>
    obtain ⟨k, v⟩ := entry
    unfold put at h
    split at h
    · next hk =>
      rcases List.mem_cons.mp h with h | h
      · exact .inl (hk ▸ h)
      · exact .inr (List.mem_cons_of_mem _ h)
    · rcases List.mem_cons.mp h with h | h
      · exact .inr (h ▸ List.mem_cons_self)
      · exact (ih h).imp_right (List.mem_cons_of_mem _)

/-- Writing what is there already changes nothing. -/
theorem put_of_get? (h : entries.get? key = some value) : entries.put key value = entries := by
  induction entries with
  | nil => cases h
  | cons entry rest ih =>
    obtain ⟨k, v⟩ := entry
    by_cases hk : k = key
    · rw [get?, if_pos hk, Option.some.injEq] at h
      rw [put, if_pos hk, h]
    · rw [get?, if_neg hk] at h
      rw [put, if_neg hk, ih h]

/-! ## Writes in another order -/

theorem put_put_self (entries : Entries α) (key : Text) (v w : α) :
    (entries.put key v).put key w = entries.put key w := by
  induction entries with
  | nil => simp [put]
  | cons entry rest ih =>
    obtain ⟨k, u⟩ := entry
    by_cases h : k = key <;> simp [put, h, ih]

/-- A present key is written at its place, before or after another key. -/
theorem put_comm {other : Text} (h : key ∈ entries.keys) (hne : other ≠ key) (v w : α) :
    (entries.put key v).put other w = (entries.put other w).put key v := by
  induction entries with
  | nil => cases h
  | cons entry rest ih =>
    obtain ⟨k, u⟩ := entry
    by_cases hk : k = key
    · subst hk
      simp [put, Ne.symm hne]
    · have hrest : key ∈ keys rest :=
        (List.mem_cons.mp h).resolve_left fun heq => hk heq.symm
      by_cases hother : k = other
      · simp [put, hother, hne]
      · simp [put, hk, hother, ih hrest]

/-! ## Many writes -/

theorem putAll_cons (entries : Entries α) (pair : Text × α) (pairs : List (Text × α)) :
    entries.putAll (pair :: pairs) = (entries.put pair.1 pair.2).putAll pairs := rfl

theorem putAll_append (entries : Entries α) (ps qs : List (Text × α)) :
    entries.putAll (ps ++ qs) = (entries.putAll ps).putAll qs := List.foldl_append

theorem mem_keys_putAll {pairs : List (Text × α)} {k : Text} :
    k ∈ (entries.putAll pairs).keys ↔ k ∈ keys pairs ∨ k ∈ entries.keys := by
  induction pairs generalizing entries with
  | nil => simp [putAll, keys]
  | cons pair pairs ih =>
    rw [putAll_cons, ih, mem_keys_put, keys_cons, List.mem_cons]
    tauto

theorem nodup_keys_putAll (h : entries.keys.Nodup) (pairs : List (Text × α)) :
    (entries.putAll pairs).keys.Nodup := by
  induction pairs generalizing entries with
  | nil => exact h
  | cons pair pairs ih => exact ih (nodup_keys_put h pair.1 pair.2)

theorem nodup_keys_ofPairs (pairs : List (Text × α)) : (ofPairs pairs).keys.Nodup :=
  nodup_keys_putAll (show (keys ([] : Entries α)).Nodup from List.nodup_nil) pairs

theorem mem_putAll {pairs : List (Text × α)} {p : Text × α} (h : p ∈ entries.putAll pairs) :
    p ∈ pairs ∨ p ∈ entries := by
  induction pairs generalizing entries with
  | nil => exact .inr h
  | cons pair pairs ih =>
    rcases ih h with h | h
    · exact .inl (List.mem_cons_of_mem _ h)
    · rcases mem_put h with rfl | h
      · exact .inl List.mem_cons_self
      · exact .inr h

/-- Of two writes of a key only the later counts, whatever other keys are written in between. -/
theorem putAll_put {pairs : List (Text × α)} (hkey : key ∈ entries.keys)
    (h : key ∉ keys pairs) (v : α) :
    (entries.put key v).putAll pairs = (entries.putAll pairs).put key v := by
  induction pairs generalizing entries with
  | nil => rfl
  | cons pair pairs ih =>
    rw [keys_cons, List.mem_cons, not_or] at h
    rw [putAll_cons, putAll_cons, put_comm hkey (Ne.symm h.1)]
    exact ih (mem_keys_put.mpr (.inr hkey)) h.2

/-- Writing entries in which a key was written comes to writing the entries, then the key. -/
theorem putAll_put_right {written : Entries α} (hnodup : written.keys.Nodup) (key : Text) (v : α) :
    entries.putAll (written.put key v) = (entries.putAll written).put key v := by
  induction written generalizing entries with
  | nil => rfl
  | cons pair rest ih =>
    obtain ⟨k, w⟩ := pair
    obtain ⟨hk, hrest⟩ := List.nodup_cons.mp hnodup
    by_cases heq : k = key
    · subst heq
      rw [put, if_pos rfl, putAll_cons, putAll_cons,
        ← putAll_put (mem_keys_put.mpr (.inl rfl)) hk, put_put_self]
    · rw [put, if_neg heq]
      exact ih hrest

/-- **Writing a map.** -/
theorem putAll_ofPairs (entries : Entries α) (pairs : List (Text × α)) :
    entries.putAll (ofPairs pairs) = entries.putAll pairs := by
  induction pairs using List.reverseRecOn with
  | nil => rfl
  | append_singleton pairs pair ih =>
    rw [ofPairs, putAll_append, putAll_append, ← ofPairs, ← ih]
    exact putAll_put_right (nodup_keys_ofPairs pairs) pair.1 pair.2

/-- Entries that are written go before those that were there. -/
theorem get?_putAll_of_nodup {written : Entries α} (h : written.keys.Nodup) (entries : Entries α)
    (key : Text) :
    (entries.putAll written).get? key = (written.get? key).or (entries.get? key) := by
  induction written generalizing entries with
  | nil => rfl
  | cons entry rest ih =>
    obtain ⟨k, v⟩ := entry
    obtain ⟨hk, hrest⟩ := List.nodup_cons.mp h
    rw [putAll_cons, ih hrest]
    by_cases heq : k = key
    · subst heq
      rw [get?_eq_none_iff.mpr hk, Option.none_or, get?_put_self, get?, if_pos rfl, Option.some_or]
    · rw [get?_put_of_ne (Ne.symm heq), get?, if_neg heq]

theorem get?_putAll (entries : Entries α) (pairs : List (Text × α)) (key : Text) :
    (entries.putAll pairs).get? key = ((ofPairs pairs).get? key).or (entries.get? key) := by
  rw [← putAll_ofPairs, get?_putAll_of_nodup (nodup_keys_ofPairs pairs)]

/-! ## Writes and drops -/

theorem erase_cons (key k : Text) (v : α) (rest : Entries α) : erase key ((k, v) :: rest)
    = if k = key then rest.erase key else (k, v) :: rest.erase key := by
  by_cases h : k = key <;> simp [erase, h]

theorem erase_put_self (entries : Entries α) (key : Text) (v : α) :
    (entries.put key v).erase key = entries.erase key := by
  induction entries with
  | nil => simp [put, erase]
  | cons entry rest ih =>
    obtain ⟨k, w⟩ := entry
    by_cases h : k = key <;> simp [put, erase_cons, h, ih]

theorem erase_put_of_ne {other : Text} (hne : other ≠ key) (entries : Entries α) (v : α) :
    (entries.put key v).erase other = (entries.erase other).put key v := by
  induction entries with
  | nil => simp [put, erase, Ne.symm hne]
  | cons entry rest ih =>
    obtain ⟨k, w⟩ := entry
    by_cases hk : k = key
    · simp [put, erase_cons, hk, Ne.symm hne]
    · by_cases hother : k = other
      · simp [put, erase_cons, hother, hne, ih]
      · simp [put, erase_cons, hk, hother, ih]

/-! ## Changing the values -/

/-- The entries with every value changed. -/
def mapValues (f : α → β) (entries : Entries α) : Entries β := entries.map fun p => (p.1, f p.2)

theorem keys_mapValues (f : α → β) (entries : Entries α) :
    (entries.mapValues f).keys = entries.keys := by
  rw [mapValues, keys, List.map_map]
  rfl

theorem get?_mapValues (f : α → β) (entries : Entries α) (key : Text) :
    (entries.mapValues f).get? key = (entries.get? key).map f := by
  induction entries with
  | nil => rfl
  | cons entry rest ih =>
    obtain ⟨k, v⟩ := entry
    show (if k = key then some (f v) else get? key (mapValues f rest)) = _
    rw [get?, ih]
    split <;> rfl

theorem mapValues_put (f : α → β) (entries : Entries α) (key : Text) (v : α) :
    (entries.put key v).mapValues f = (entries.mapValues f).put key (f v) := by
  induction entries with
  | nil => rfl
  | cons entry rest ih =>
    obtain ⟨k, w⟩ := entry
    unfold mapValues at ih ⊢
    by_cases h : k = key <;> simp [put, h, ih]

theorem mapValues_erase (f : α → β) (entries : Entries α) (key : Text) :
    (entries.erase key).mapValues f = (entries.mapValues f).erase key := by
  rw [mapValues, erase, erase, mapValues, List.filter_map]
  rfl

theorem mapValues_putAll (f : α → β) (entries : Entries α) (pairs : List (Text × α)) :
    (entries.putAll pairs).mapValues f
      = (entries.mapValues f).putAll (pairs.map fun p => (p.1, f p.2)) := by
  induction pairs generalizing entries with
  | nil => rfl
  | cons pair pairs ih =>
    rw [putAll_cons, ih, mapValues_put]
    rfl

end CssValues.Entries
