import CssValues.Proofs.Style.Equality

/-!
# Spellings of a name

When a style is built, a name is trimmed and brought to lower case. The operations look for it
earlier than that: `set` as it is given, the others in lower case. In any spelling a present value
ends up at the property (`Style.properties_set_present`). A blank one drops the property only under
its very name (`Style.properties_set_blank`), and removals and looking up reach it by trimmed spellings
only. Main result: `Style.spelled_alike_iff`.
-/

namespace CssValues

open Entries

/-! ## Keys that are dropped or looked up -/

namespace Entries

variable {α : Type} {entries : Entries α} {k m n : Text}

/-- Two drops agree if they are the same, or none. -/
theorem erase_agree_iff : (∀ key, (entries.erase m).get? key = (entries.erase n).get? key)
    ↔ m = n ∨ m ∉ entries.keys ∧ n ∉ entries.keys := by
  constructor
  · intro h
    by_cases heq : m = n
    · exact .inl heq
    · have hm := h m
      have hn := h n
      rw [get?_erase_self, get?_erase_of_ne heq] at hm
      rw [get?_erase_self, get?_erase_of_ne (Ne.symm heq)] at hn
      exact .inr ⟨get?_eq_none_iff.mp hm.symm, get?_eq_none_iff.mp hn⟩
  · rintro (rfl | ⟨hm, hn⟩) key
    · rfl
    · rw [erase_of_notMem hm, erase_of_notMem hn]

variable (hm : m ∈ entries.keys → m = k) (hn : n ∈ entries.keys → n = k)

include hm hn

/-- Two spellings of the key `k`, the only one they may be found as. -/
theorem same_or_absent_iff : m = n ∨ m ∉ entries.keys ∧ n ∉ entries.keys
    ↔ k ∉ entries.keys ∨ (m = k ↔ n = k) := by
  constructor
  · rintro (rfl | ⟨hmabsent, hnabsent⟩)
    · exact .inr Iff.rfl
    · by_cases hk : k ∈ entries.keys
      · right
        exact ⟨fun heq => absurd (heq ▸ hk) hmabsent, fun heq => absurd (heq ▸ hk) hnabsent⟩
      · exact .inl hk
  · rintro (hk | hiff)
    · exact .inr ⟨fun hmem => hk (hm hmem ▸ hmem), fun hmem => hk (hn hmem ▸ hmem)⟩
    · by_cases heq : m = k
      · exact .inl (heq.trans (hiff.mp heq).symm)
      · exact .inr ⟨mt hm heq, mt hn (mt hiff.mpr heq)⟩

theorem isSome_agree_iff : (entries.get? m).isSome = (entries.get? n).isSome
    ↔ k ∉ entries.keys ∨ (m = k ↔ n = k) := by
  rw [← same_or_absent_iff hm hn, Bool.eq_iff_iff, isSome_get?_iff, isSome_get?_iff]
  constructor
  · intro h
    by_cases hmem : m ∈ entries.keys
    · exact .inl ((hm hmem).trans (hn (h.mp hmem)).symm)
    · exact .inr ⟨hmem, mt h.mpr hmem⟩
  · rintro (rfl | ⟨hm, hn⟩)
    · rfl
    · exact iff_of_false hm hn

theorem get?_agree_iff : entries.get? m = entries.get? n
    ↔ k ∉ entries.keys ∨ (m = k ↔ n = k) := by
  refine ⟨fun h => (isSome_agree_iff hm hn).mp (congrArg _ h), fun h => ?_⟩
  rcases (same_or_absent_iff hm hn).mpr h with rfl | ⟨hm, hn⟩
  · rfl
  · rw [get?_eq_none_iff.mpr hm, get?_eq_none_iff.mpr hn]

end Entries

namespace Style

variable {s : Style} {properties : Entries Text} {m n k : Text} {v : Option Text}

/-! ## Names -/

theorem propertyName_lower (n : Text) : propertyName (Text.lower n) = propertyName n := by
  rw [propertyName, Text.trim_lower_eq, Text.lower_lower, propertyName]

/-- The lower case of a name is the name of the property just if the name is trimmed. -/
theorem lower_eq_propertyName_iff : Text.lower n = propertyName n ↔ n.trim = n := by
  rw [propertyName, eq_comm, Text.lower_trim_eq_iff]

/-- The name of a property is its own form. -/
theorem IsTidy.eq_propertyName (h : IsTidy properties) (hn : n ∈ properties.keys) :
    n = propertyName n := by
  obtain ⟨-, htrim, hlower⟩ := h.name n hn
  rw [propertyName, htrim, hlower]

theorem isBlankText_iff_propertyName : Text.isBlankText n = true ↔ propertyName n = [] := by
  rw [propertyName, Text.lower_eq_nil_iff, Text.trim_eq_nil_iff]

/-! ## Values -/

/-- Whether a value is there and not blank. -/
def isPresent : Option Text → Bool
  | some value => !Text.isBlankText value
  | none => false

theorem take_of_not_present (hv : isPresent v = false) (properties : Entries Text) (n : Text) :
    take properties (n, v) = properties := by
  cases v with
  | none => rfl
  | some value =>
    have hblank : Text.isBlankText value = true := by simpa [isPresent] using hv
    simp [take, hblank]

/-- Values that are not present do not count. -/
theorem normalize_filter (pairs : List (Text × Option Text)) :
    normalize (pairs.filter fun p => isPresent p.2) = normalize pairs := by
  have htake : (fun properties p => if isPresent p.2 = true then take properties p else properties)
      = take := by
    funext properties p
    split
    · rfl
    · next hv => exact (take_of_not_present (Bool.eq_false_iff.mpr hv) properties p.1).symm
  rw [normalize, normalize, List.foldl_filter, htake]

/-- A value that is not present leaves nothing behind of what it is written over. -/
theorem filter_put (hv : isPresent v = false) {entries : Entries (Option Text)}
    (hnodup : entries.keys.Nodup) (hpresent : ∀ p ∈ entries, isPresent p.2 = true) :
    (entries.put n v).filter (fun p => isPresent p.2) = entries.erase n := by
  induction entries with
  | nil => simp [put, erase, hv]
  | cons entry rest ih =>
    obtain ⟨k, w⟩ := entry
    obtain ⟨hk, hrest⟩ := List.nodup_cons.mp hnodup
    obtain ⟨hw, hrestPresent⟩ := List.forall_mem_cons.mp hpresent
    rw [put, erase_cons]
    split
    · next heq =>
      rw [List.filter_cons_of_neg (by simp [hv]), List.filter_eq_self.mpr hrestPresent,
        erase_of_notMem (heq ▸ hk)]
    · rw [List.filter_cons, if_pos hw, ih hrest hrestPresent]

/-! ## Setting -/

/-- Setting a present value writes it at the property. -/
theorem properties_set_present (h : IsTidy s.properties) {value : Text}
    (hvalue : Text.isBlankText value = false) (n : Text) : (s.set n (some value)).properties
      = if propertyName n = [] then s.properties
        else s.properties.put (propertyName n) value.trim := by
  by_cases hmem : n ∈ s.properties.keys
  · obtain ⟨hne, htrim, -⟩ := h.name n hmem
    rw [properties_set h htrim hvalue, if_neg hne, propertyName, htrim,
      if_neg (mt Text.lower_eq_nil_iff.mp hne)]
  · rw [properties_set_of_notMem h hmem, take]
    simp only [hvalue, Bool.or_false, isBlankText_iff_propertyName]

/-- Setting a value that is not present drops the property of this very name. -/
theorem properties_set_blank (h : IsTidy s.properties) (hv : isPresent v = false) (n : Text) :
    (s.set n v).properties = s.properties.erase n := by
  have hnodup : (s.properties.mapValues some).keys.Nodup := by
    rw [keys_mapValues]
    exact h.nodup
  have hpresent : ∀ p ∈ s.properties.mapValues some, isPresent p.2 = true := by
    rw [mapValues, List.forall_mem_map]
    intro p hp
    rw [isPresent, h.isBlankText_value hp]
    rfl
  have hset : s.set n v = normalize ((s.properties.erase n).mapValues some) := by
    rw [mapValues_erase, ← filter_put hv hnodup hpresent, normalize_filter]
    rfl
  rw [hset, normalize_of_isTidy (h.erase n)]

theorem merge_single (s : Style) (n : Text) (v : Option Text) :
    s.merge [(n, v)] = s.set (Text.lower n) v := rfl

/-! ## Spellings of the same name -/

section

variable (h : IsTidy s.properties) (hname : propertyName m = propertyName n)

include h hname

/-- Two spellings are set alike but where a blank value meets the property in one of them. -/
theorem equals_set_iff (v : Option Text) : (s.set m v).equals (s.set n v) = true
    ↔ isPresent v = true ∨ propertyName n ∉ s.properties.keys
      ∨ (m = propertyName n ↔ n = propertyName n) := by
  rw [equals_iff (s := s.set m v) (t := s.set n v) (isTidy_normalize _).nodup
    (isTidy_normalize _).nodup]
  cases hv : isPresent v with
  | true =>
    obtain ⟨value, rfl⟩ : ∃ value, v = some value := by
      cases v with
      | none => cases hv
      | some value => exact ⟨value, rfl⟩
    have hvalue : Text.isBlankText value = false := by simpa [isPresent] using hv
    refine iff_of_true (fun key => ?_) (.inl rfl)
    rw [properties_set_present h hvalue, properties_set_present h hvalue, hname]
  | false =>
    rw [properties_set_blank h hv, properties_set_blank h hv, erase_agree_iff,
      same_or_absent_iff (k := propertyName n) fun hmem => (h.eq_propertyName hmem).trans hname]
    · simp
    · exact h.eq_propertyName

/-- In lower case a spelling is the name of the property just if it is trimmed. -/
theorem lower_spellings : (Text.lower m ∈ s.properties.keys → Text.lower m = propertyName n)
    ∧ (Text.lower n ∈ s.properties.keys → Text.lower n = propertyName n)
    ∧ ((Text.lower m = propertyName n ↔ Text.lower n = propertyName n)
      ↔ (m.trim = m ↔ n.trim = n)) := by
  refine ⟨fun hmem => ?_, fun hmem => ?_, ?_⟩
  · rw [h.eq_propertyName hmem, propertyName_lower, hname]
  · rw [h.eq_propertyName hmem, propertyName_lower]
  · rw [lower_eq_propertyName_iff, ← hname, lower_eq_propertyName_iff]

theorem equals_remove_iff : (s.remove m).equals (s.remove n) = true
    ↔ propertyName n ∉ s.properties.keys ∨ (m.trim = m ↔ n.trim = n) := by
  obtain ⟨hm, hn, htrim⟩ := lower_spellings h hname
  rw [equals_iff (s := s.remove m) (t := s.remove n) (isTidy_normalize _).nodup
    (isTidy_normalize _).nodup, properties_remove h, properties_remove h, erase_agree_iff,
    same_or_absent_iff hm hn, htrim]

theorem get?_spelled_iff : s.get? m = s.get? n
    ↔ propertyName n ∉ s.properties.keys ∨ (m.trim = m ↔ n.trim = n) := by
  obtain ⟨hm, hn, htrim⟩ := lower_spellings h hname
  rw [get?, get?, get?_agree_iff hm hn, htrim]

theorem contains_spelled_iff : s.contains m = s.contains n
    ↔ propertyName n ∉ s.properties.keys ∨ (m.trim = m ↔ n.trim = n) := by
  obtain ⟨hm, hn, htrim⟩ := lower_spellings h hname
  rw [contains, contains, get?, get?, isSome_agree_iff hm hn, htrim]

end

/-- **Spellings.** What two spellings of a name have in common: setting a present value is the same
for both, and the same as merging it. A blank value, a removal and looking up are alike for both where
there is no such property, and else where both reach it or neither does. Setting a blank value reaches
it by the very name of the property only, the others by all trimmed spellings. -/
theorem spelled_alike_iff (start : Entries (Option Text)) (v : Option Text)
    (hname : propertyName m = propertyName n) :
    (((ofEntries start).set m v).equals ((ofEntries start).set n v) = true
      ↔ isPresent v = true ∨ propertyName n ∉ (ofEntries start).properties.keys
        ∨ (m = propertyName n ↔ n = propertyName n))
    ∧ (((ofEntries start).set n v).equals ((ofEntries start).merge [(m, v)]) = true
      ↔ isPresent v = true ∨ propertyName n ∉ (ofEntries start).properties.keys
        ∨ (n = propertyName n ↔ m.trim = m))
    ∧ ((ofEntries start).get? m = (ofEntries start).get? n
      ↔ propertyName n ∉ (ofEntries start).properties.keys ∨ (m.trim = m ↔ n.trim = n))
    ∧ (((ofEntries start).remove m).equals ((ofEntries start).remove n) = true
      ↔ propertyName n ∉ (ofEntries start).properties.keys ∨ (m.trim = m ↔ n.trim = n))
    ∧ ((ofEntries start).contains m = (ofEntries start).contains n
      ↔ propertyName n ∉ (ofEntries start).properties.keys ∨ (m.trim = m ↔ n.trim = n)) := by
  have h : IsTidy (ofEntries start).properties := isTidy_normalize start
  refine ⟨equals_set_iff h hname v, ?_, get?_spelled_iff h hname, equals_remove_iff h hname,
    contains_spelled_iff h hname⟩
  have hlower : propertyName n = propertyName (Text.lower m) := by rw [propertyName_lower, hname]
  rw [merge_single, equals_set_iff h hlower, ← hlower, ← hname, lower_eq_propertyName_iff]

/-- A blank in front of a name is lost when it is set, and not when it is looked up. -/
theorem spelled_alike_iff_padded :
    ((ofEntries [("width".toList, some "1px".toList)]).set " width".toList (some ['2'])).equals
        ((ofEntries [("width".toList, some "1px".toList)]).set "WIDTH".toList (some ['2'])) = true
      ∧ (ofEntries [("width".toList, some "1px".toList)]).get? " width".toList
        ≠ (ofEntries [("width".toList, some "1px".toList)]).get? "WIDTH".toList := by
  obtain ⟨hset, -, hget, -⟩ := spelled_alike_iff (m := " width".toList) (n := "WIDTH".toList)
    [("width".toList, some "1px".toList)] (some ['2']) (by decide +kernel)
  refine ⟨hset.mpr (.inl (by decide)), fun heq => ?_⟩
  rcases hget.mp heq with habsent | htrim
  · exact absurd (by decide +kernel) habsent
  · exact absurd (htrim.mpr (by decide)) (by decide)

/-- Not all spellings of a name are alike: a blank value drops the property in lower case only. -/
theorem spelled_alike_blank :
    ¬∀ (start : Entries (Option Text)) (m n : Text) (v : Option Text),
      Text.isBlankText m = false → Text.isBlankText n = false → propertyName m = propertyName n →
        ((ofEntries start).set m v).equals ((ofEntries start).set n v) = true
        ∧ ((ofEntries start).set n v).equals ((ofEntries start).merge [(m, v)]) = true
        ∧ (ofEntries start).get? m = (ofEntries start).get? n
        ∧ ((ofEntries start).remove m).equals ((ofEntries start).remove n) = true
        ∧ (ofEntries start).contains m = (ofEntries start).contains n := by
  intro h
  have hset := (h [("width".toList, some "1px".toList)] "width".toList "WIDTH".toList (some [])
    (by decide) (by decide) (by decide +kernel)).1
  exact absurd hset (by decide +kernel)

end Style

end CssValues
