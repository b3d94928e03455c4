import CssValues.Proofs.Style.Tidy
import Mathlib.Data.List.Perm.Subperm

/-!
# Equal styles

Styles are equal just if every property has the same value in both, wherever it stands
(`Style.equals_iff`). It is enough that the names are distinct.
-/

namespace CssValues

namespace Entries

variable {α : Type} {key : Text}

/-- Distinct keys that are all found among as many others are all of these. -/
theorem mem_keys_iff_of_length {e f : Entries α} (he : e.keys.Nodup)
    (hlength : f.length ≤ e.length) (hsub : ∀ key ∈ e.keys, key ∈ f.keys) :
    key ∈ f.keys ↔ key ∈ e.keys := by
  have hperm : e.keys.Perm f.keys :=
    (List.subperm_of_subset he hsub).perm_of_length_le (by simpa [keys] using hlength)
  exact hperm.mem_iff.symm

end Entries

open Entries

theorem Value.equals_text {s t : Text} : (text s).equals (text t) = true ↔ s = t := by
  rw [equals, decide_eq_true_eq]

theorem Value.equalEntries_iff {es fs : Entries Value} : equalEntries es fs = true
    ↔ ∀ p ∈ es, ∃ w, fs.get? p.1 = some w ∧ p.2.equals w = true := by
  induction es with
  | nil => simp [equalEntries]
  | cons p rest ih =>
    obtain ⟨k, v⟩ := p
    rw [equalEntries, Bool.and_eq_true, ih, List.forall_mem_cons]
    refine and_congr_left fun _ => ?_
    cases Entries.get? k fs <;> simp

namespace Style

variable {s t : Style}

/-- Every property of `s` has the same value in `t`. -/
theorem equalEntries_toValue : Value.equalEntries (s.properties.mapValues .text)
    (t.properties.mapValues .text) = true
      ↔ ∀ p ∈ s.properties, t.properties.get? p.1 = some p.2 := by
  have hvalue (v : Text) (o : Option Text) :
      (∃ w, o.map Value.text = some w ∧ (Value.text v).equals w = true) ↔ o = some v := by
    cases o with
    | none => simp
    | some w =>
      simp only [Option.map_some, Option.some.injEq, exists_eq_left', Value.equals_text]
      exact eq_comm
  rw [Value.equalEntries_iff, mapValues, List.forall_mem_map]
  simp only [get?_mapValues, hvalue]

/-- **Equality.** Styles are equal just if every property has the same value in both. -/
theorem equals_iff (hs : s.properties.keys.Nodup) (ht : t.properties.keys.Nodup) :
    s.equals t = true ↔ ∀ key, s.properties.get? key = t.properties.get? key := by
  have hequals : s.equals t = true ↔ s.properties.length = t.properties.length
      ∧ ∀ p ∈ s.properties, t.properties.get? p.1 = some p.2 := by
    rw [← equalEntries_toValue, equals, toValue, toValue, Value.equals, Bool.and_eq_true,
      decide_eq_true_eq, List.length_map, List.length_map]
    rfl
  rw [hequals]
  constructor
  · rintro ⟨hlength, hsame⟩ key
    cases hget : s.properties.get? key with
    | some v => exact (hsame _ (mem_of_get? hget)).symm
    | none =>
      have hsub : ∀ k ∈ s.properties.keys, k ∈ t.properties.keys := by
        intro k hk
        obtain ⟨p, hp, rfl⟩ := List.mem_map.mp hk
        rw [← isSome_get?_iff, hsame p hp]
        rfl
      rw [eq_comm, get?_eq_none_iff, mem_keys_iff_of_length hs hlength.ge hsub,
        ← get?_eq_none_iff, hget]
  · intro hsame
    have hkeys : ∀ key, key ∈ s.properties.keys ↔ key ∈ t.properties.keys := fun key => by
      rw [← isSome_get?_iff, ← isSome_get?_iff, hsame]
    refine ⟨?_, fun p hp => by rw [← hsame, get?_of_mem hs hp]⟩
    have hperm := (List.perm_ext_iff_of_nodup hs ht).mpr hkeys
    simpa [keys] using hperm.length_eq

end Style

end CssValues
