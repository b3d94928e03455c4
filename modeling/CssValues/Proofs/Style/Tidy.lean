import CssValues.Proofs.Entries
import CssValues.Proofs.Text.Casing
import CssValues.Style.Basic

/-!
# Tidy declarations

The properties of a style are tidy: distinct trimmed lower-case names and trimmed values, none of them
empty. Normalizing makes them so (`isTidy_normalize`) and leaves them so (`properties_normalize`), and
therefore the operations, which normalize again, come to writes and drops at lower-case names.
-/

namespace CssValues

open Entries

namespace Style

/-! ## What is tidy -/

/-- A name that is kept, unless it is empty. -/
def IsName (key : Text) : Prop := key.trim = key ∧ Text.lower key = key

/-- Distinct trimmed lower-case names and trimmed values, none of them empty. -/
structure IsTidy (properties : Entries Text) : Prop where
  nodup : properties.keys.Nodup
  name : ∀ key ∈ properties.keys, key ≠ [] ∧ IsName key
  value : ∀ p ∈ properties, p.2 ≠ [] ∧ p.2.trim = p.2

theorem isTidy_nil : IsTidy [] := ⟨List.nodup_nil, nofun, nofun⟩

variable {properties : Entries Text}

theorem IsTidy.put (h : IsTidy properties) {key value : Text} (hkey : key ≠ [] ∧ IsName key)
    (hvalue : value ≠ [] ∧ value.trim = value) : IsTidy (properties.put key value) where
  nodup := nodup_keys_put h.nodup key value
  name k hk := by
    rcases mem_keys_put.mp hk with rfl | hk
    · exact hkey
    · exact h.name k hk
  value p hp := by
    rcases mem_put hp with rfl | hp
    · exact hvalue
    · exact h.value p hp

theorem IsTidy.erase (h : IsTidy properties) (key : Text) : IsTidy (properties.erase key) where
  nodup := nodup_keys_erase h.nodup key
  name k hk := h.name k (List.mem_of_mem_filter (keys_erase properties key ▸ hk))
  value p hp := h.value p (List.mem_of_mem_filter hp)

theorem isName_lower {t : Text} (h : t.trim = t) : IsName (Text.lower t) :=
  ⟨Text.trim_lower h, Text.lower_lower t⟩

theorem propertyName_ne_nil {name : Text} (h : Text.isBlankText name = false) :
    propertyName name ≠ [] := by
  rw [propertyName, Ne, Text.lower_eq_nil_iff, Text.trim_eq_nil_iff, h]
  exact Bool.false_ne_true

/-- Taking in a pair keeps what is tidy. -/
theorem IsTidy.take (h : IsTidy properties) (pair : Text × Option Text) :
    IsTidy (take properties pair) := by
  unfold Style.take
  split
  · next value _ =>
    split
    · exact h
    · next hnot =>
      obtain ⟨hname, hvalue⟩ := Bool.or_eq_false_iff.mp (Bool.eq_false_iff.mpr hnot)
      refine h.put ⟨propertyName_ne_nil hname, isName_lower Text.trim_trim⟩ ⟨?_, Text.trim_trim⟩
      rw [Ne, Text.trim_eq_nil_iff, hvalue]
      exact Bool.false_ne_true
  · exact h

/-- **Normalizing** makes properties tidy. -/
theorem isTidy_normalize (pairs : List (Text × Option Text)) :
    IsTidy (normalize pairs).properties := by
  suffices h : ∀ properties, IsTidy properties → IsTidy (pairs.foldl Style.take properties) from
    h [] isTidy_nil
  induction pairs with
  | nil => exact fun _ h => h
  | cons pair pairs ih => exact fun _ h => ih _ (h.take pair)

/-- Every property comes from a pair. -/
theorem exists_of_mem_normalize {pairs : List (Text × Option Text)} {p : Text × Text}
    (h : p ∈ (normalize pairs).properties) :
    ∃ q ∈ pairs, ∃ value, q.2 = some value ∧ p = (propertyName q.1, value.trim) := by
  induction pairs using List.reverseRecOn with
  | nil => cases h
  | append_singleton pairs pair ih =>
    have hlast : normalize (pairs ++ [pair]) = ⟨take (normalize pairs).properties pair⟩ := by
      rw [normalize, List.foldl_append]
      rfl
    rw [hlast] at h
    have hbefore (hp : p ∈ (normalize pairs).properties) : ∃ q ∈ pairs ++ [pair], ∃ value,
        q.2 = some value ∧ p = (propertyName q.1, value.trim) := by
      obtain ⟨q, hq, hpair⟩ := ih hp
      exact ⟨q, List.mem_append_left _ hq, hpair⟩
    unfold take at h
    dsimp only at h
    split at h
    · next value hvalue =>
      split at h
      · exact hbefore h
      · rcases Entries.mem_put h with heq | h
        · exact ⟨pair, by simp, value, hvalue, heq⟩
        · exact hbefore h
    · exact hbefore h

/-! ## Normalizing again -/

/-- The entries without the one of the empty name, their values trimmed. -/
def tidied (properties : Entries Text) : Entries Text := (properties.erase []).mapValues Text.trim

theorem tidied_of_isTidy (h : IsTidy properties) : tidied properties = properties := by
  rw [tidied, erase_of_notMem fun hmem => (h.name [] hmem).1 rfl]
  calc properties.map (fun p => (p.1, p.2.trim))
      = properties.map id := List.map_congr_left fun p hp => Prod.ext rfl (h.value p hp).2
    _ = properties := List.map_id _

theorem tidied_put (properties : Entries Text) (key value : Text) :
    tidied (properties.put key value)
      = if key = [] then tidied properties else (tidied properties).put key value.trim := by
  unfold tidied
  split
  · next h => rw [h, erase_put_self]
  · next h => rw [erase_put_of_ne (Ne.symm h), mapValues_put]

theorem tidied_putAll (properties : Entries Text) (pairs : List (Text × Text)) :
    tidied (properties.putAll pairs) = pairs.foldl (fun properties p =>
      if p.1 = [] then properties else properties.put p.1 p.2.trim) (tidied properties) := by
  induction pairs generalizing properties with
  | nil => rfl
  | cons pair pairs ih =>
    rw [putAll_cons, ih, tidied_put, List.foldl_cons]

theorem tidied_cons (key value : Text) (entries : Entries Text) : tidied ((key, value) :: entries)
    = if key = [] then tidied entries else (key, value.trim) :: tidied entries := by
  unfold tidied
  rw [erase_cons]
  split <;> rfl

/-- Normalizing what has distinct lower-case names leaves out an empty one and trims the values. -/
theorem properties_normalize {entries : Entries Text} (hnodup : entries.keys.Nodup)
    (hname : ∀ key ∈ entries.keys, IsName key)
    (hvalue : ∀ p ∈ entries, Text.isBlankText p.2 = false) :
    (normalize (entries.mapValues some)).properties = tidied entries := by
  -- the entries are taken in behind those that are there
  suffices h : ∀ before : Entries Text, (before.keys ++ entries.keys).Nodup →
      (entries.mapValues some).foldl Style.take before = before ++ tidied entries from
    h [] hnodup
  clear hnodup
  induction entries with
  | nil => exact fun before _ => (List.append_nil before).symm
  | cons entry rest ih =>
    obtain ⟨key, value⟩ := entry
    intro before hnodup
    have ih := ih (fun k hk => hname k (List.mem_cons_of_mem _ hk))
      (fun p hp => hvalue p (List.mem_cons_of_mem _ hp))
    obtain ⟨htrim, hlower⟩ := hname key List.mem_cons_self
    have hkept : Text.isBlankText value = false := hvalue (key, value) List.mem_cons_self
    rw [keys_cons] at hnodup
    rw [tidied_cons]
    show (mapValues some rest).foldl Style.take (Style.take before (key, some value)) = _
    split
    · next hempty =>
      have htake : Style.take before (key, some value) = before := by
        rw [hempty]
        rfl
      rw [htake]
      exact ih before (hnodup.sublist (List.Sublist.append_left (List.sublist_cons_self _ _) _))
    · next hne =>
      have hblank : Text.isBlankText key = false := by
        rw [← Bool.not_eq_true, ← Text.trim_eq_nil_iff, htrim]
        exact hne
      have hnew : key ∉ before.keys := fun hmem =>
        (List.nodup_append.mp hnodup).2.2 key hmem key List.mem_cons_self rfl
      have htake : Style.take before (key, some value) = before ++ [(key, value.trim)] := by
        simp only [Style.take, hblank, hkept, Bool.or_self, Bool.false_eq_true, if_false,
          propertyName, htrim, hlower]
        exact put_of_notMem hnew _
      rw [htake, ih, List.append_assoc, List.singleton_append]
      rw [keys_append, List.append_assoc]
      exact hnodup

/-! ## Operations -/

theorem isBlankText_of_trim {t : Text} (h : t.trim = t) : Text.isBlankText t = decide (t = []) := by
  rw [Bool.eq_iff_iff, ← Text.trim_eq_nil_iff, h, decide_eq_true_iff]

theorem IsTidy.isBlankText_value (h : IsTidy properties) {p : Text × Text} (hp : p ∈ properties) :
    Text.isBlankText p.2 = false := by
  obtain ⟨hne, htrim⟩ := h.value p hp
  rw [isBlankText_of_trim htrim]
  exact decide_eq_false hne

/-- Normalizing tidy properties changes nothing. -/
theorem normalize_of_isTidy (h : IsTidy properties) :
    (normalize (properties.mapValues some)).properties = properties := by
  rw [properties_normalize h.nodup (fun k hk => (h.name k hk).2) fun _ => h.isBlankText_value,
    tidied_of_isTidy h]

section

variable {s : Style} (h : IsTidy s.properties)

include h

/-- A name that is not there is taken in behind the others. -/
theorem properties_set_of_notMem {name : Text} (hmem : name ∉ s.properties.keys)
    (value : Option Text) :
    (s.set name value).properties = Style.take s.properties (name, value) := by
  have hpairs : s.pairs.put name value = s.properties.mapValues some ++ [(name, value)] :=
    put_of_notMem (by rwa [← keys_mapValues some] at hmem) _
  rw [set, hpairs, normalize, List.foldl_append]
  exact congrArg (fun properties => Style.take properties (name, value)) (normalize_of_isTidy h)

/-- Setting a property writes it at the lower case of its name. -/
theorem properties_set {name value : Text} (hname : name.trim = name)
    (hvalue : Text.isBlankText value = false) : (s.set name (some value)).properties
      = if name = [] then s.properties else s.properties.put (Text.lower name) value.trim := by
  by_cases hmem : name ∈ s.properties.keys
  · -- the name is there already, and so in lower case
    have hset : s.set name (some value) = normalize ((s.properties.put name value).mapValues some) := by
      rw [mapValues_put]
      rfl
    have hnames : ∀ k ∈ (s.properties.put name value).keys, IsName k := by
      rw [keys_put_of_mem hmem]
      exact fun k hk => (h.name k hk).2
    have hvalues : ∀ p ∈ s.properties.put name value, Text.isBlankText p.2 = false := by
      intro p hp
      rcases mem_put hp with rfl | hp
      · exact hvalue
      · exact h.isBlankText_value hp
    rw [hset, properties_normalize (nodup_keys_put h.nodup name value) hnames hvalues, tidied_put,
      tidied_of_isTidy h, (h.name name hmem).2.2]
  · rw [properties_set_of_notMem h hmem, Style.take]
    simp only [isBlankText_of_trim hname, hvalue, Bool.or_false, decide_eq_true_eq, propertyName, hname]

/-- Removing a property drops the lower case of its name. -/
theorem properties_remove (name : Text) :
    (s.remove name).properties = s.properties.erase (Text.lower name) := by
  have hremove : s.remove name
      = normalize ((s.properties.erase (Text.lower name)).mapValues some) := by
    rw [mapValues_erase]
    rfl
  rw [hremove]
  exact normalize_of_isTidy (h.erase _)

/-- Merging writes one property after the other. -/
theorem properties_merge {pairs : List (Text × Text)} (hname : ∀ p ∈ pairs, p.1.trim = p.1)
    (hvalue : ∀ p ∈ pairs, Text.isBlankText p.2 = false) :
    (s.merge (pairs.map fun p => (p.1, some p.2))).properties
      = pairs.foldl (fun properties p =>
          if p.1 = [] then properties else properties.put (Text.lower p.1) p.2.trim)
        s.properties := by
  have hmerge : s.merge (pairs.map fun p => (p.1, some p.2)) = normalize
      ((s.properties.putAll (pairs.map fun p => (Text.lower p.1, p.2))).mapValues some) := by
    rw [mapValues_putAll, merge, putAll_ofPairs, List.map_map, List.map_map]
    rfl
  have hnames : ∀ k ∈ (s.properties.putAll (pairs.map fun p => (Text.lower p.1, p.2))).keys,
      IsName k := by
    intro k hk
    rcases mem_keys_putAll.mp hk with hk | hk
    · obtain ⟨_, hmem, rfl⟩ := List.mem_map.mp hk
      obtain ⟨p, hp, rfl⟩ := List.mem_map.mp hmem
      exact isName_lower (hname p hp)
    · exact (h.name k hk).2
  have hvalues : ∀ q ∈ s.properties.putAll (pairs.map fun p => (Text.lower p.1, p.2)),
      Text.isBlankText q.2 = false := by
    intro q hq
    rcases mem_putAll hq with hq | hq
    · obtain ⟨p, hp, rfl⟩ := List.mem_map.mp hq
      exact hvalue p hp
    · exact h.isBlankText_value hq
  rw [hmerge, properties_normalize (nodup_keys_putAll h.nodup _) hnames hvalues, tidied_putAll,
    tidied_of_isTidy h, List.foldl_map]
  simp only [Text.lower_eq_nil_iff]

end

end Style

end CssValues
