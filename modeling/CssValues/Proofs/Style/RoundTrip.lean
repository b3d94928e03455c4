import CssValues.Proofs.Declaration.Sequence
import CssValues.Proofs.Style.Latest

/-!
# Declarations read back

A style is written as its declarations in a row, each with its name as it is, unescaped, and with
its value trimmed. It is read back if each declaration is by itself and none but the last runs into
the next (`Style.read_css_of_readsBack`).
-/

namespace CssValues

/-- The map that pairs with distinct keys denote. -/
theorem Entries.ofPairs_of_nodup {α : Type} {pairs : List (Text × α)} (h : (keys pairs).Nodup) :
    ofPairs pairs = pairs := by
  induction pairs using List.reverseRecOn with
  | nil => rfl
  | append_singleton pairs pair ih =>
    rw [keys_append, List.nodup_append] at h
    obtain ⟨hpairs, -, hdisjoint⟩ := h
    have hnew : pair.1 ∉ keys pairs := fun hmem =>
      hdisjoint pair.1 hmem pair.1 (List.mem_singleton_self pair.1) rfl
    rw [ofPairs, putAll_append, ← ofPairs, ih hpairs]
    exact put_of_notMem hnew pair.2

namespace Style

/-- A property as it is written. -/
def declarationText (p : Text × Text) : Text := p.1 ++ ':' :: ' ' :: p.2

/-- What is written for the property declares the property again. -/
def ReadsBack (p : Text × Text) : Prop :=
  (DeclarationItem.ofText (declarationText p)).toOption.map declared = some [p]

instance (p : Text × Text) : Decidable (ReadsBack p) :=
  inferInstanceAs (Decidable (_ = _))

theorem ReadsBack.exists_items {p : Text × Text} (h : ReadsBack p) :
    ∃ items, DeclarationItem.ofText (declarationText p) = .ok items ∧ declared items = [p] := by
  unfold ReadsBack at h
  cases hitems : DeclarationItem.ofText (declarationText p) with
  | error f =>
    rw [hitems] at h
    cases h
  | ok items =>
    rw [hitems] at h
    exact ⟨items, rfl, Option.some.inj h⟩

theorem declared_append (items more : List DeclarationItem) :
    declared (items ++ more) = declared items ++ declared more := List.filterMap_append ..

/-- What is written for properties declares them again, in order. -/
theorem ofText_join {properties : List (Text × Text)} (halone : ∀ p ∈ properties, ReadsBack p)
    (hclosed : ∀ p ∈ properties.dropLast, IsClosed (declarationText p)) :
    ∃ items, DeclarationItem.ofText (Text.join [';', ' '] (properties.map declarationText))
      = .ok items ∧ declared items = properties := by
  induction properties with
  | nil =>
    have htokens : Token.scanAll (Token.normalize []) = [] := Token.scanAll_nil
    refine ⟨[], DeclarationItem.ofText_eq_ok_iff.mpr ?_, rfl⟩
    rw [List.map_nil, Text.join, htokens]
    exact ⟨List.forall_mem_nil _, DeclarationItem.ofComponents.eq_1.symm⟩
  | cons p rest ih =>
    obtain ⟨hp, hrest⟩ := List.forall_mem_cons.mp halone
    obtain ⟨items, hitems, hdeclared⟩ := hp.exists_items
    cases rest with
    | nil => exact ⟨items, hitems, hdeclared⟩
    | cons q rest =>
      rw [List.dropLast_cons_cons] at hclosed
      obtain ⟨hend, hends⟩ := List.forall_mem_cons.mp hclosed
      obtain ⟨more, hmore, hmoreDeclared⟩ := ih hrest hends
      refine ⟨items ++ more, ?_, by rw [declared_append, hdeclared, hmoreDeclared]; rfl⟩
      have happend := DeclarationItem.ofText_append hend hitems (DeclarationItem.ofText_space.mpr hmore)
      rw [← happend]
      simp [Text.join]

theorem isTidy_of_read {t : Text} {s : Style} (h : (read t).result = .ok s) :
    IsTidy s.properties := by
  obtain rfl | ⟨items, -, rfl⟩ := eq_of_read h
  · exact isTidy_nil
  · exact isTidy_normalize _

/-- A style that was read is read back as it is if each of its declarations is read back by itself
and a semicolon ends each but the last. -/
theorem read_css_of_readsBack {t : Text} {s : Style} (h : (read t).result = .ok s)
    (halone : ∀ p ∈ s.properties, ReadsBack p)
    (hclosed : ∀ p ∈ s.properties.dropLast, IsClosed (declarationText p)) :
    (read s.css).result = .ok s := by
  have htidy := isTidy_of_read h
  obtain ⟨items, hitems, hdeclared⟩ := ofText_join halone hclosed
  have hkeys : (Entries.keys (s.properties.map fun p => (p.1, some p.2))).Nodup := by
    rw [← Entries.mapValues, Entries.keys_mapValues]
    exact htidy.nodup
  have hread := read_of_ofText (t := s.css) hitems
  rw [hdeclared, Entries.ofPairs_of_nodup hkeys] at hread
  rw [hread]
  exact congrArg (fun properties => Except.ok (Style.mk properties)) (normalize_of_isTidy htidy)

end Style

end CssValues
