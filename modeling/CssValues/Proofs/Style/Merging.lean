import CssValues.Proofs.Style.Latest
import CssValues.Proofs.Style.Naming
import Mathlib.Data.List.Find

/-!
# Merging a map

A merge overwrites the properties by the lower case of the names in the map, before these are trimmed
and before blank values are left out. So a map and the declarations that it denotes are not merged
alike: a blank value drops the property, and of several spellings of a name the last value need not
win (`Style.merge_denoted_iff`). Both are alike where the map has one value to a property and no blank
one under the trimmed name of a property that is there.
-/

namespace CssValues

open Entries

namespace Entries

variable {α : Type} {entries : Entries α} {key : Text}

theorem filter_keys_put (f : Text → Bool) (entries : Entries α) (key : Text) (value : α) :
    (entries.put key value).filter (fun p => f p.1)
      = if f key then put key value (entries.filter fun p => f p.1)
        else entries.filter fun p => f p.1 := by
  induction entries with
  | nil => cases h : f key <;> simp [put, h]
  | cons entry rest ih =>
    obtain ⟨k, v⟩ := entry
    by_cases hk : k = key
    · subst hk
      cases h : f k <;> simp [put, h]
    · cases hf : f k <;> cases h : f key <;> simp [put, hk, hf, h, ih]

/-- Keys are written apart from each other. -/
theorem filter_keys_putAll (f : Text → Bool) (entries : Entries α) (pairs : List (Text × α)) :
    (entries.putAll pairs).filter (fun p => f p.1)
      = putAll (entries.filter fun p => f p.1) (pairs.filter fun p => f p.1) := by
  induction pairs generalizing entries with
  | nil => rfl
  | cons pair pairs ih =>
    rw [putAll_cons, ih, filter_keys_put, List.filter_cons]
    split <;> rfl

end Entries

namespace Style

variable {s : Style} {d pairs : Entries (Option Text)} {k : Text} {p : Text × Option Text}

/-! ## What a map denotes -/

/-- The last value of a property that is present, trimmed. -/
def lastPresent? (pairs : List (Text × Option Text)) (k : Text) : Option Text :=
  (pairs.reverse.find? fun p => propertyName p.1 = k && isPresent p.2).bind fun p =>
    p.2.map Text.trim

theorem lastPresent?_append (pairs : List (Text × Option Text)) (p : Text × Option Text) :
    lastPresent? (pairs ++ [p]) k = if propertyName p.1 = k ∧ isPresent p.2 = true
      then p.2.map Text.trim else lastPresent? pairs k := by
  rw [lastPresent?, List.reverse_concat, List.find?_cons]
  by_cases hname : propertyName p.1 = k <;> cases hpresent : isPresent p.2
    <;> simp [hname, lastPresent?]

/-- Only the pairs that name a property count for it. -/
theorem lastPresent?_filter (pairs : List (Text × Option Text)) (k : Text) :
    lastPresent? (pairs.filter fun p => propertyName p.1 = k) k = lastPresent? pairs k := by
  rw [lastPresent?, ← List.filter_reverse, List.find?_filter, lastPresent?]
  congr 2
  funext p
  by_cases hname : propertyName p.1 = k <;> simp [hname]

theorem exists_of_isPresent {v : Option Text} (h : isPresent v = true) :
    ∃ value, v = some value ∧ Text.isBlankText value = false := by
  cases v with
  | none => cases h
  | some value => exact ⟨value, rfl, by simpa [isPresent] using h⟩

theorem lastPresent?_eq_none_iff : lastPresent? pairs k = none
    ↔ ∀ p ∈ pairs, propertyName p.1 = k → isPresent p.2 = false := by
  constructor
  · intro h p hp hname
    by_contra hpresent
    cases hfind : pairs.reverse.find? fun p => propertyName p.1 = k && isPresent p.2 with
    | none =>
      have := List.find?_eq_none.mp hfind p (List.mem_reverse.mpr hp)
      simp [hname, hpresent] at this
    | some q =>
      have hq := List.find?_some hfind
      obtain ⟨value, hvalue, -⟩ := exists_of_isPresent (Bool.and_eq_true_iff.mp hq).2
      rw [lastPresent?, hfind, Option.bind_some, hvalue] at h
      cases h
  · intro h
    rw [lastPresent?, List.find?_eq_none.mpr, Option.bind_none]
    intro p hp
    by_cases hname : propertyName p.1 = k
    · simp [h p (List.mem_reverse.mp hp) hname]
    · simp [hname]

theorem IsTidy.get?_nil {properties : Entries Text} (h : IsTidy properties) :
    properties.get? [] = none :=
  get?_eq_none_iff.mpr fun hmem => (h.name [] hmem).1 rfl

/-- A property has the last value that is present. -/
theorem get?_normalize_pairs (pairs : List (Text × Option Text)) (hk : k ≠ []) :
    (normalize pairs).properties.get? k = lastPresent? pairs k := by
  induction pairs using List.reverseRecOn with
  | nil => rfl
  | append_singleton pairs p ih =>
    have hlast : normalize (pairs ++ [p]) = ⟨take (normalize pairs).properties p⟩ := by
      rw [normalize, List.foldl_append]
      rfl
    rw [hlast, lastPresent?_append, ← ih]
    obtain ⟨n, v⟩ := p
    cases hpresent : isPresent v with
    | false => simp [take_of_not_present hpresent]
    | true =>
      obtain ⟨value, rfl, hvalue⟩ := exists_of_isPresent hpresent
      simp only [take, hvalue, Bool.or_false, isBlankText_iff_propertyName, and_true, Option.map_some]
      by_cases hempty : propertyName n = []
      · rw [if_pos hempty, if_neg fun hname => hk (hname.symm.trans hempty)]
      · rw [if_neg hempty]
        by_cases hname : propertyName n = k
        · rw [if_pos hname, hname, get?_put_self]
        · rw [if_neg hname, get?_put_of_ne (Ne.symm hname)]

/-- The name of a property is in lower case and trimmed. -/
theorem propertyName_of_lastPresent? {v : Text} (h : lastPresent? pairs k = some v) :
    propertyName k = k := by
  by_contra hk
  refine Option.some_ne_none v (h.symm.trans (lastPresent?_eq_none_iff.mpr fun p _ hname => ?_))
  refine absurd ?_ hk
  rw [← hname, propertyName, propertyName, Text.trim_lower Text.trim_trim, Text.lower_lower]

/-- Entries in which a property has no other key than its name. -/
theorem lastPresent?_of_key (hnodup : pairs.keys.Nodup) (hk : propertyName k = k)
    (hkey : ∀ p ∈ pairs, propertyName p.1 = k → isPresent p.2 = true → p.1 = k) :
    lastPresent? pairs k = (pairs.get? k).bind fun v =>
      if isPresent v = true then v.map Text.trim else none := by
  cases hfind : pairs.reverse.find? fun p => propertyName p.1 = k && isPresent p.2 with
  | some q =>
    have hq := List.find?_some hfind
    simp only [Bool.and_eq_true, decide_eq_true_eq] at hq
    have hmem : q ∈ pairs := List.mem_reverse.mp (List.mem_of_find?_eq_some hfind)
    have hget : pairs.get? k = some q.2 := by
      refine get?_of_mem hnodup ?_
      rwa [← hkey q hmem hq.1 hq.2]
    rw [lastPresent?, hfind, hget, Option.bind_some, Option.bind_some, if_pos hq.2]
  | none =>
    rw [lastPresent?, hfind, Option.bind_none]
    cases hget : pairs.get? k with
    | none => rfl
    | some v =>
      have := List.find?_eq_none.mp hfind _ (List.mem_reverse.mpr (mem_of_get? hget))
      simp only [hk, decide_true, Bool.true_and] at this
      rw [Option.bind_some, if_neg this]

/-! ## Merging -/

/-- A map with its names in lower case, which is how a merge writes them. -/
def lowered (d : Entries (Option Text)) : Entries (Option Text) :=
  d.map fun p => (Text.lower p.1, p.2)

/-- What a merge leaves of a property: the last value present once the map is written over the
properties, name by name. -/
def merged? (s : Style) (d : Entries (Option Text)) (k : Text) : Option Text :=
  lastPresent? (s.pairs.putAll (lowered d)) k

theorem get?_merge (s : Style) (d : Entries (Option Text)) (hk : k ≠ []) :
    (s.merge d).properties.get? k = merged? s d k := by
  rw [merge, putAll_ofPairs]
  exact get?_normalize_pairs _ hk

theorem mem_lowered : p ∈ lowered d → ∃ q ∈ d, Text.lower q.1 = p.1 ∧ q.2 = p.2 := by
  intro h
  obtain ⟨q, hq, rfl⟩ := List.mem_map.mp h
  exact ⟨q, hq, rfl, rfl⟩

theorem filter_lowered (d : Entries (Option Text)) (k : Text) :
    (lowered d).filter (fun p => propertyName p.1 = k)
      = lowered (d.filter fun p => propertyName p.1 = k) := by
  rw [lowered, List.filter_map, lowered]
  congr 2
  funext p
  rw [Function.comp_apply, propertyName_lower]

/-- A property is merged by the pairs that name it. -/
theorem merged?_filter (s : Style) (d : Entries (Option Text)) (k : Text) :
    merged? s (d.filter fun p => propertyName p.1 = k) k = merged? s d k := by
  have hfilter (e : Entries (Option Text)) :
      merged? s e k = lastPresent? (putAll (s.pairs.filter fun p => propertyName p.1 = k)
        (lowered (e.filter fun p => propertyName p.1 = k))) k := by
    rw [merged?, ← lastPresent?_filter, ← filter_lowered]
    exact congrArg (lastPresent? · k) (filter_keys_putAll (fun n => propertyName n = k) _ _)
  rw [hfilter, hfilter, List.filter_filter]
  simp only [Bool.and_self]

theorem get?_pairs (s : Style) (k : Text) : s.pairs.get? k = (s.properties.get? k).map some :=
  get?_mapValues some s.properties k

/-- If no property is named twice, a pair is the only one that names its property. -/
theorem filter_of_nodup (hd : (d.map fun p => propertyName p.1).Nodup) (hp : p ∈ d) :
    d.filter (fun q => propertyName q.1 = propertyName p.1) = [p] := by
  refine List.perm_singleton.mp ((List.perm_ext_iff_of_nodup
    ((List.Nodup.of_map _ hd).filter _) (List.nodup_singleton p)).mpr fun q => ?_)
  rw [List.mem_filter, decide_eq_true_iff, List.mem_singleton]
  constructor
  · rintro ⟨hq, hname⟩
    exact List.inj_on_of_nodup_map hd hq hp hname
  · rintro rfl
    exact ⟨hp, rfl⟩

section

variable (h : IsTidy s.properties)

include h

theorem nodup_keys_pairs_putAll (d : Entries (Option Text)) : (s.pairs.putAll d).keys.Nodup := by
  refine nodup_keys_putAll ?_ d
  have hkeys : s.pairs.keys = s.properties.keys := keys_mapValues some s.properties
  rw [hkeys]
  exact h.nodup

/-- Where the map writes a property under its name only, the last of these values counts. -/
theorem merged?_of_key (hk : propertyName k = k)
    (hd : ∀ p ∈ d, propertyName p.1 = k → isPresent p.2 = true → Text.lower p.1 = k) :
    merged? s d k = ((ofPairs (lowered d)).get? k).elim (s.properties.get? k) fun v =>
      if isPresent v = true then v.map Text.trim else none := by
  rw [merged?, lastPresent?_of_key (nodup_keys_pairs_putAll h _) hk, get?_putAll, get?_pairs]
  · cases (ofPairs (lowered d)).get? k with
    | some v => rfl
    | none =>
      cases hget : s.properties.get? k with
      | none => rfl
      | some v =>
        have hmem := mem_of_get? hget
        have hpresent : isPresent (some v) = true := by
          rw [isPresent, h.isBlankText_value hmem]
          rfl
        simp [hpresent, (h.value _ hmem).2]
  · intro p hp hname hpresent
    rcases mem_putAll hp with hp | hp
    · obtain ⟨q, hq, hlower, hvalue⟩ := mem_lowered hp
      rw [← hlower]
      rw [← hlower, propertyName_lower] at hname
      exact hd q hq hname (hvalue ▸ hpresent)
    · obtain ⟨q, hq, rfl⟩ := List.mem_map.mp hp
      exact (h.eq_propertyName (List.mem_map_of_mem hq)).trans hname

/-- If no value of a property is present, it is dropped if its name is written, and else kept. -/
theorem merged?_of_none (hk : propertyName k = k) (hnone : lastPresent? d k = none) :
    merged? s d k = if k ∈ (lowered d).keys then none else s.properties.get? k := by
  have hblank := lastPresent?_eq_none_iff.mp hnone
  rw [merged?_of_key h hk fun p hp hname hpresent => by simp [hblank p hp hname] at hpresent]
  split
  · next hmem =>
    have hsome : ((ofPairs (lowered d)).get? k).isSome :=
      isSome_get?_iff.mpr (mem_keys_putAll.mpr (.inl hmem))
    obtain ⟨v, hv⟩ := Option.isSome_iff_exists.mp hsome
    obtain ⟨q, hq, hlower, rfl⟩ :=
      mem_lowered ((mem_putAll (mem_of_get? hv)).resolve_right List.not_mem_nil)
    have hname : propertyName q.1 = k := by rw [← propertyName_lower, hlower, hk]
    rw [hv, Option.elim_some, if_neg (by simp [hblank q hq hname])]
  · next hmem =>
    have hget : (ofPairs (lowered d)).get? k = none :=
      get?_eq_none_iff.mpr fun hkeys =>
        hmem ((mem_keys_putAll.mp hkeys).resolve_right List.not_mem_nil)
    rw [hget, Option.elim_none]

/-- One value of a property that is present is written, whatever the spelling of the name. -/
theorem merged?_single (hk : k ≠ []) (hname : propertyName p.1 = k)
    (hpresent : isPresent p.2 = true) :
    merged? s [p] k = p.2.map Text.trim := by
  obtain ⟨n, v⟩ := p
  obtain ⟨value, rfl, hvalue⟩ := exists_of_isPresent hpresent
  rw [← get?_merge s _ hk, merge_single, properties_set_present h hvalue, propertyName_lower, hname,
    if_neg hk, get?_put_self, Option.map_some]

/-- The declarations that a map denotes go before those that were there. -/
theorem get?_merge_ofEntries (d : Entries (Option Text)) (hk : k ≠ []) :
    (s.merge (ofEntries d).pairs).properties.get? k
      = (lastPresent? d k).or (s.properties.get? k) := by
  have ht : IsTidy (ofEntries d).properties := isTidy_normalize d
  have hmerge : (s.merge (ofEntries d).pairs).properties
      = s.properties.putAll (ofEntries d).properties := by
    refine (properties_merge h (fun p hp => ?_) fun p => ht.isBlankText_value).trans ?_
    · exact (ht.name p.1 (List.mem_map_of_mem hp)).2.1
    · refine List.foldl_ext _ _ _ fun properties p hp => ?_
      obtain ⟨hne, -, hlower⟩ := ht.name p.1 (List.mem_map_of_mem hp)
      rw [if_neg hne, hlower, (ht.value p hp).2]
  rw [hmerge, get?_putAll_of_nodup ht.nodup]
  exact congrArg (Option.or · _) (get?_normalize_pairs d hk)

/-- Merging a map and merging what it denotes agree if they do so at every property. -/
theorem equals_merge_iff (d : Entries (Option Text)) :
    (s.merge d).equals (s.merge (ofEntries d).pairs) = true
      ↔ ∀ k, k ≠ [] → merged? s d k = (lastPresent? d k).or (s.properties.get? k) := by
  have hmerge : IsTidy (s.merge d).properties := isTidy_normalize _
  have hdenoted : IsTidy (s.merge (ofEntries d).pairs).properties := isTidy_normalize _
  rw [equals_iff hmerge.nodup hdenoted.nodup]
  constructor
  · intro hsame k hk
    rw [← get?_merge s d hk, ← get?_merge_ofEntries h d hk, hsame]
  · intro hsame k
    by_cases hk : k = []
    · rw [hk, hmerge.get?_nil, hdenoted.get?_nil]
    · rw [get?_merge s d hk, get?_merge_ofEntries h d hk, hsame k hk]

/-- They agree where every property has the value that is denoted, and no blank value drops one. -/
theorem equals_merge_iff_values (d : Entries (Option Text)) :
    (s.merge d).equals (s.merge (ofEntries d).pairs) = true
      ↔ ∀ k, k ≠ [] → (∀ v, lastPresent? d k = some v → merged? s d k = some v)
        ∧ (lastPresent? d k = none → k ∈ s.properties.keys → k ∉ (lowered d).keys) := by
  rw [equals_merge_iff h]
  refine forall₂_congr fun k hk => ?_
  cases hdenoted : lastPresent? d k with
  | some v => simp
  | none =>
    rw [Option.none_or]
    by_cases hname : propertyName k = k
    · rw [merged?_of_none h hname hdenoted]
      by_cases hwritten : k ∈ (lowered d).keys
      · simp [hwritten, eq_comm (a := none), get?_eq_none_iff]
      · simp [hwritten]
    · -- nothing is kept under such a name
      have hmerged : merged? s d k = none :=
        Option.eq_none_iff_forall_ne_some.mpr fun v hv => hname (propertyName_of_lastPresent? hv)
      have hmem : k ∉ s.properties.keys := fun hmem => hname (h.eq_propertyName hmem).symm
      simp [hmerged, hmem, get?_eq_none_iff.mpr hmem]

/-- With one value to a property, a value that is present wins. -/
theorem merged?_of_nodup (hd : (d.map fun p => propertyName p.1).Nodup) (hk : k ≠ []) {v : Text}
    (hv : lastPresent? d k = some v) : merged? s d k = some v := by
  have hnone : lastPresent? d k ≠ none := by simp [hv]
  rw [Ne, lastPresent?_eq_none_iff] at hnone
  push Not at hnone
  obtain ⟨p, hp, hname, hpresent⟩ := hnone
  have hpresent := (Bool.not_eq_false _).mp hpresent
  have hfilter := filter_of_nodup hd hp
  rw [hname] at hfilter
  rw [← merged?_filter, hfilter, merged?_single h hk hname hpresent]
  rw [← lastPresent?_filter, hfilter] at hv
  rw [← hv]
  exact (lastPresent?_append [] p).symm ▸ (if_pos ⟨hname, hpresent⟩).symm

/-- With one value to a property, only a blank one under a trimmed name counts otherwise. -/
theorem equals_merge_iff_of_nodup (hd : (d.map fun p => propertyName p.1).Nodup) :
    (s.merge d).equals (s.merge (ofEntries d).pairs) = true
      ↔ ∀ p ∈ d, isPresent p.2 = false → p.1.trim = p.1 →
        propertyName p.1 ∉ s.properties.keys := by
  rw [equals_merge_iff_values h]
  constructor
  · intro hsame p hp hblank htrim hmem
    have hlower : Text.lower p.1 = propertyName p.1 := lower_eq_propertyName_iff.mpr htrim
    refine (hsame _ (h.name _ hmem).1).2 (lastPresent?_eq_none_iff.mpr fun q hq hname => ?_) hmem ?_
    · rwa [List.inj_on_of_nodup_map hd hq hp hname]
    · exact hlower ▸ List.mem_map_of_mem (List.mem_map_of_mem hp)
  · intro hblank k hk
    refine ⟨fun v hv => merged?_of_nodup h hd hk hv, fun hnone hmem hwritten => ?_⟩
    obtain ⟨q, hq, rfl⟩ := List.mem_map.mp hwritten
    obtain ⟨p, hp, rfl⟩ := List.mem_map.mp hq
    have hname : Text.lower p.1 = propertyName p.1 :=
      (h.eq_propertyName hmem).trans (propertyName_lower p.1)
    exact hblank p hp (lastPresent?_eq_none_iff.mp hnone p hp hname.symm)
      (lower_eq_propertyName_iff.mp hname) (hname ▸ hmem)

/-- With trimmed names and values that are all present, later values win. -/
theorem equals_merge_of_present (hd : ∀ p ∈ d, p.1.trim = p.1 ∧ isPresent p.2 = true) :
    (s.merge d).equals (s.merge (ofEntries d).pairs) = true := by
  rw [equals_merge_iff_values h]
  have hlower : ∀ p ∈ d, Text.lower p.1 = propertyName p.1 := fun p hp =>
    lower_eq_propertyName_iff.mpr (hd p hp).1
  refine fun k hk => ⟨fun v hv => ?_, fun hnone _ hwritten => ?_⟩
  · -- the last value under the lower case of the name is the last one under the name
    have hfind : d.reverse.find? ((fun p => decide (p.1 = k)) ∘ fun p => (Text.lower p.1, p.2))
        = d.reverse.find? fun p => propertyName p.1 = k && isPresent p.2 := by
      refine List.find?_congr fun p hp => ?_
      have hp := List.mem_reverse.mp hp
      simp [hlower p hp, (hd p hp).2]
    rw [merged?_of_key h (propertyName_of_lastPresent? hv) fun p hp hname _ =>
      (hlower p hp).trans hname, get?_ofPairs, lowered, ← List.map_reverse, List.find?_map, hfind]
    rw [lastPresent?] at hv
    obtain ⟨p, hp, hvalue⟩ := Option.bind_eq_some_iff.mp hv
    have hpresent := (hd p (List.mem_reverse.mp (List.mem_of_find?_eq_some hp))).2
    simp [hp, hpresent, hvalue]
  · obtain ⟨q, hq, rfl⟩ := List.mem_map.mp hwritten
    obtain ⟨p, hp, rfl⟩ := List.mem_map.mp hq
    have hblank := lastPresent?_eq_none_iff.mp hnone p hp (hlower p hp).symm
    rw [(hd p hp).2] at hblank
    cases hblank

end

/-- Blank names do not count. -/
theorem equals_merge_filter (s : Style) (d : Entries (Option Text)) :
    (s.merge d).equals (s.merge (d.filter fun p => !Text.isBlankText p.1)) = true := by
  have hd : IsTidy (s.merge d).properties := isTidy_normalize _
  have hfiltered : IsTidy (s.merge (d.filter fun p => !Text.isBlankText p.1)).properties :=
    isTidy_normalize _
  refine (equals_iff hd.nodup hfiltered.nodup).mpr fun k => ?_
  by_cases hk : k = []
  · rw [hk, hd.get?_nil, hfiltered.get?_nil]
  · rw [get?_merge s d hk, get?_merge s _ hk, ← merged?_filter s d,
      ← merged?_filter s (d.filter fun p => !Text.isBlankText p.1), List.filter_filter]
    congr 2
    funext p
    by_cases hname : propertyName p.1 = k
    · have hblank : Text.isBlankText p.1 = false := by
        rw [← Bool.not_eq_true, isBlankText_iff_propertyName, hname]
        exact hk
      simp [hname, hblank]
    · simp [hname]

theorem isTidy_empty : IsTidy empty.properties := isTidy_nil

/-- Merging what a map denotes into no properties gives what it denotes. -/
theorem equals_merge_empty_iff (d : Entries (Option Text)) :
    (empty.merge d).equals (ofEntries d) = true
      ↔ (empty.merge d).equals (empty.merge (ofEntries d).pairs) = true := by
  have hmerge : IsTidy (empty.merge d).properties := isTidy_normalize _
  have hd : IsTidy (ofEntries d).properties := isTidy_normalize d
  have hdenoted : IsTidy (empty.merge (ofEntries d).pairs).properties := isTidy_normalize _
  rw [equals_iff hmerge.nodup hd.nodup, equals_iff hmerge.nodup hdenoted.nodup]
  refine forall_congr' fun k => ?_
  by_cases hk : k = []
  · rw [hk, hd.get?_nil, hdenoted.get?_nil]
  · have hget : (ofEntries d).properties.get? k = lastPresent? d k := get?_normalize_pairs d hk
    rw [get?_merge_ofEntries isTidy_empty d hk, hget]
    exact iff_of_eq (congrArg _ (Option.or_none).symm)

/-- **Merging a map** is merging the declarations that it denotes just if every property that the map
gives a value to gets that value, and no property is written with blank values alone. If the map has
one value to a property, only a blank one under the trimmed name of a property that is there makes a
difference; if its names are trimmed and its values present, there is none. Blank names never count. -/
theorem merge_denoted_iff (start d : Entries (Option Text)) :
    (((ofEntries start).merge d).equals ((ofEntries start).merge (ofEntries d).pairs) = true
      ↔ ∀ k, k ≠ [] →
        (∀ v, lastPresent? d k = some v → merged? (ofEntries start) d k = some v)
        ∧ (lastPresent? d k = none → k ∈ (ofEntries start).properties.keys →
          k ∉ (lowered d).keys))
    ∧ ((empty.merge d).equals (ofEntries d) = true
      ↔ ∀ k, k ≠ [] → ∀ v, lastPresent? d k = some v → merged? empty d k = some v)
    ∧ ((d.map fun p => propertyName p.1).Nodup →
      (((ofEntries start).merge d).equals ((ofEntries start).merge (ofEntries d).pairs) = true
        ↔ ∀ p ∈ d, isPresent p.2 = false → p.1.trim = p.1 →
          propertyName p.1 ∉ (ofEntries start).properties.keys)
      ∧ (empty.merge d).equals (ofEntries d) = true)
    ∧ ((∀ p ∈ d, p.1.trim = p.1 ∧ isPresent p.2 = true) →
      ((ofEntries start).merge d).equals ((ofEntries start).merge (ofEntries d).pairs) = true
      ∧ (empty.merge d).equals (ofEntries d) = true)
    ∧ ((ofEntries start).merge d).equals
        ((ofEntries start).merge (d.filter fun p => !Text.isBlankText p.1)) = true := by
  have h : IsTidy (ofEntries start).properties := isTidy_normalize start
  refine ⟨equals_merge_iff_values h d, ?_, fun hd => ⟨equals_merge_iff_of_nodup h hd, ?_⟩,
    fun hd => ⟨equals_merge_of_present h hd, ?_⟩, equals_merge_filter _ d⟩
  · rw [equals_merge_empty_iff, equals_merge_iff_values isTidy_empty]
    exact forall₂_congr fun k hk => and_iff_left fun _ hmem => absurd hmem List.not_mem_nil
  · rw [equals_merge_empty_iff, equals_merge_iff_of_nodup isTidy_empty hd]
    exact fun p _ _ _ => List.not_mem_nil
  · exact (equals_merge_empty_iff d).mpr (equals_merge_of_present isTidy_empty hd)

/-- A height is added to a width that is kept: its own blank value stands under another spelling. -/
theorem merge_denoted_iff_padded :
    ((ofEntries [("width".toList, some ['1'])]).merge
        [(" Width".toList, some []), ("HEIGHT".toList, some ['2'])]).equals
      ((ofEntries [("width".toList, some ['1'])]).merge
        (ofEntries [(" Width".toList, some []), ("HEIGHT".toList, some ['2'])]).pairs) = true
    ∧ ((ofEntries [("width".toList, some ['1'])]).merge
        [("width".toList, some ['3']), ("WIDTH".toList, some ['2'])]).equals
      ((ofEntries [("width".toList, some ['1'])]).merge
        (ofEntries [("width".toList, some ['3']), ("WIDTH".toList, some ['2'])]).pairs) = true :=
  ⟨((merge_denoted_iff _ _).2.2.1 (by decide)).1.mpr (by decide),
    ((merge_denoted_iff _ _).2.2.2.1 (by decide)).1⟩

/-- A map is not always merged as what it denotes: a blank width drops the width. -/
theorem merge_denoted_blank :
    ¬∀ start d : Entries Text, start.keys.Nodup → d.keys.Nodup →
      ((ofEntries (start.mapValues some)).merge (d.mapValues some)).equals
        ((ofEntries (start.mapValues some)).merge (ofEntries (d.mapValues some)).pairs) = true
      ∧ (empty.merge (d.mapValues some)).equals (ofEntries (d.mapValues some)) = true := by
  intro h
  have hmerge := (h [("width".toList, "1px".toList)] [("width".toList, [])] (by decide)
    (by decide)).1
  exact absurd hmerge (by decide)

end Style

end CssValues
