import CssValues.Proofs.Color.Transcription
import CssValues.Proofs.Component.Folding
import CssValues.Proofs.Resolver.Transcription
import CssValues.Proofs.Style.Getter

/-!
# Values in another case

Sizes, pixels and box shorthands do not depend on the case of ASCII letters, but for the `calc` in front
of a calculation: with a capital in it the text is no calculation, and resolves to nothing
(`Resolver.caseCountsIn_size` and its companions). For colours case does not count at all.
-/

namespace CssValues

open Text (asciiLower isTranscription_toLower)

/-! ## Readers and case -/

/-- A reader for which case counts in `M` only. What has `M` gives nothing, and of two things that are
alike but for case and do not have `M`, both give the same. -/
structure CaseCountsIn {α β : Type} (alike : α → α → Prop) (M : α → Prop)
    (R : α → Except Fault (Option β)) : Prop where
  nothing : ∀ a, M a → R a = .ok none
  same : ∀ a b, alike a b → ¬M a → ¬M b → R a = R b

namespace CaseCountsIn

variable {α β γ : Type} {alike : α → α → Prop} {M : α → Prop} {R : α → Except Fault (Option β)}

/-- Such a reader gives the same for both just if both or none of them have `M`, or if both give
nothing. -/
theorem eq_iff (h : CaseCountsIn alike M R) {a b : α} (hab : alike a b) :
    R a = R b ↔ (M a ↔ M b) ∨ R a = .ok none ∧ R b = .ok none := by
  by_cases ha : M a
  · have hnone := h.nothing a ha
    refine ⟨fun heq => .inr ⟨hnone, heq ▸ hnone⟩, ?_⟩
    rintro (hiff | ⟨-, hb⟩)
    · rw [hnone, h.nothing b (hiff.mp ha)]
    · rw [hnone, hb]
  by_cases hb : M b
  · have hnone := h.nothing b hb
    refine ⟨fun heq => .inr ⟨heq.trans hnone, hnone⟩, ?_⟩
    rintro (hiff | ⟨hnone', -⟩)
    · exact absurd (hiff.mpr hb) ha
    · rw [hnone, hnone']
  · exact iff_of_true (h.same a b hab ha hb) (.inl (iff_of_false ha hb))

theorem map (h : CaseCountsIn alike M R) (f : β → γ) :
    CaseCountsIn alike M fun a => (R a).map (Option.map f) where
  nothing a ha := by rw [h.nothing a ha]; rfl
  same a b hab ha hb := by rw [h.same a b hab ha hb]

end CaseCountsIn

/-- Texts that are alike but for the case of ASCII letters. -/
def Text.IsRecased (t u : Text) : Prop := asciiLower t = asciiLower u

/-! ## Calculations -/

namespace CalcSource

/-- A text that would be a calculation in small letters, but whose `calc` has a capital. -/
def IsMiscased (t : Text) : Prop := isValid t = false ∧ isValid (asciiLower t) = true

instance (t : Text) : Decidable (IsMiscased t) :=
  inferInstanceAs (Decidable (isValid t = false ∧ isValid (asciiLower t) = true))

variable {t : Text}

theorem isValid_eq_of_not_isMiscased (h : ¬IsMiscased t) : isValid (asciiLower t) = isValid t := by
  cases hvalid : isValid t with
  | true => exact isValid_map isTranscription_toLower (by decide) hvalid
  | false => exact Bool.not_eq_true _ ▸ fun hlower => h ⟨hvalid, hlower⟩

/-- What ends in a percent sign is no calculation. -/
theorem isValid_of_percent (h : ['%'].isSuffixOf t = true) : isValid t = false := by
  rw [← Bool.not_eq_true]
  intro hvalid
  obtain ⟨body, hbody⟩ := Option.isSome_iff_exists.mp hvalid
  obtain ⟨hshape, -⟩ := body?_eq_some hbody
  obtain ⟨w, e, heq, -, he⟩ := Text.exists_trimWhere Text.isBlank t
  have htrim : Text.trimWhere Text.isBlank t = opening ++ body ++ [')'] := hshape
  rw [htrim, List.append_assoc w, List.append_assoc _ [')'], ← List.append_assoc w] at heq
  have hlast := Text.isSuffixOf_singleton.mp h
  rw [heq, List.singleton_append, List.getLast?_append_cons] at hlast
  rcases List.mem_cons.mp (List.mem_of_getLast? hlast) with hparen | hblank
  · cases hparen
  · exact absurd (he _ hblank) (by decide)

theorem not_isMiscased_of_percent (h : ['%'].isSuffixOf t = true) : ¬IsMiscased t := by
  rintro ⟨-, hmade⟩
  have hlower : ['%'].isSuffixOf (asciiLower t) = true :=
    (isTranscription_toLower.isSuffixOf_map (by decide) t).trans h
  rw [isValid_of_percent hlower] at hmade
  cases hmade

end CalcSource

open CalcSource (IsMiscased)

namespace Resolver

variable {c : Context} {t u : Text}

theorem caseCountsIn_size (c : Context) :
    CaseCountsIn Text.IsRecased IsMiscased fun t => (attempt (size c t)).result where
  nothing _ h := result_size_of_made isTranscription_toLower h.1 h.2
  same t u h ht hu := by
    have hlower {t : Text} (ht : ¬IsMiscased t) :
        (attempt (size c (asciiLower t))).result = (attempt (size c t)).result :=
      result_size_map isTranscription_toLower (CalcSource.isValid_eq_of_not_isMiscased ht)
    rw [← hlower ht, ← hlower hu, h]

theorem caseCountsIn_pixels (c : Context) :
    CaseCountsIn Text.IsRecased IsMiscased fun t => (attempt (pixels c t)).result where
  nothing _ h := result_pixels_of_made isTranscription_toLower h.1 h.2
  same t u h ht hu := by
    have hlower {t : Text} (ht : ¬IsMiscased t) :
        (attempt (pixels c (asciiLower t))).result = (attempt (pixels c t)).result :=
      result_pixels_map isTranscription_toLower (CalcSource.isValid_eq_of_not_isMiscased ht)
    rw [← hlower ht, ← hlower hu, h]

/-! ## Box shorthands -/

/-- The edge that a part of a shorthand gives. -/
def edge? (c : Context) (part : Text) : Option Number :=
  (partPixels c part).toOption.map (Number.max 0)

theorem toOption_edge (c : Context) (t part : Text) : (edge c t part).toOption = edge? c part := by
  unfold edge edge?
  split
  · next n hn => rw [hn]; rfl
  · next f hf => rw [hf]; rfl
  · next why _ hwhy => rw [hwhy]; rfl

theorem edge?_of_isMiscased {part : Text} (h : IsMiscased part) : edge? c part = none := by
  cases hpart : partPixels c part with
  | error why => rw [edge?, hpart]; rfl
  | ok n =>
    exact (CalcSource.not_spelled isTranscription_toLower h.1 h.2 (spelled_of_partPixels hpart)).elim

theorem edge?_asciiLower {part : Text} (h : ¬IsMiscased part) :
    edge? c (asciiLower part) = edge? c part := by
  have hpercent : ['%'].isSuffixOf (asciiLower part) = ['%'].isSuffixOf part :=
    isTranscription_toLower.isSuffixOf_map (by decide) part
  have hread : Percentage.read (asciiLower part) = Percentage.read part :=
    Percentage.read_map isTranscription_toLower part
  have hpixels : (pixels c (asciiLower part)).toOption = (pixels c part).toOption :=
    toOption_pixels_map isTranscription_toLower (CalcSource.isValid_eq_of_not_isMiscased h)
  unfold edge? partPixels
  rw [hpercent, hread]
  split
  · cases Percentage.read part <;> rfl
  · rw [hpixels]

/-- The box that parts make up. -/
def boxOf (c : Context) (parts : List Text) : Option BoxEdges :=
  (parts.mapM (edge? c)).bind BoxEdges.expand?

theorem boxOf_of_isMiscased {parts : List Text} (h : ∃ part ∈ parts, IsMiscased part) :
    boxOf c parts = none := by
  obtain ⟨part, hmem, hpart⟩ := h
  have hnone : parts.mapM (edge? c) = none := by
    induction parts with
    | nil => cases hmem
    | cons first parts ih =>
      rw [List.mapM_cons]
      rcases List.mem_cons.mp hmem with rfl | hmem
      · rw [edge?_of_isMiscased hpart]
        rfl
      · rw [ih hmem]
        cases edge? c first <;> rfl
  rw [boxOf, hnone]
  rfl

theorem boxOf_asciiLower {parts : List Text} (h : ∀ part ∈ parts, ¬IsMiscased part) :
    boxOf c (parts.map asciiLower) = boxOf c parts := by
  have hedges : (parts.map asciiLower).mapM (edge? c) = parts.mapM (edge? c) := by
    induction parts with
    | nil => rfl
    | cons part parts ih =>
      obtain ⟨hpart, hparts⟩ := List.forall_mem_cons.mp h
      rw [List.map_cons, List.mapM_cons, List.mapM_cons, edge?_asciiLower hpart, ih hparts]
  rw [boxOf, boxOf, hedges]

/-- The shorthand around the parts is only named in the reason. -/
theorem boxOf_eq (c : Context) (t : Text) (parts : List Text) :
    boxOf c parts = (parts.mapM (edge c t)).toOption.bind BoxEdges.expand? := by
  have hedges : parts.mapM (edge? c) = (parts.mapM (edge c t)).toOption := by
    induction parts with
    | nil => rfl
    | cons part parts ih =>
      rw [List.mapM_cons, List.mapM_cons, ih, ← toOption_edge c t]
      cases edge c t part with
      | error why => rfl
      | ok n => cases parts.mapM (edge c t) <;> rfl
  rw [boxOf, hedges]

theorem length_of_boxOf {parts : List Text} {b : BoxEdges} (h : boxOf c parts = some b) :
    parts.length ≠ 0 ∧ parts.length ≤ 4 := by
  rw [boxOf_eq c []] at h
  obtain ⟨edges, hedges, hb⟩ := Option.bind_eq_some_iff.mp h
  have hlength := (mapM_eq_ok_iff.mp (eq_of_toOption hedges)).length_eq
  have hfour := BoxEdges.length_of_expand? hb
  omega

/-- A box shorthand is what its parts make up, or what is wrong with its numbers. -/
theorem result_attempt_box (c : Context) (t : Text) : (attempt (box c t)).result
    = if Text.isBlankText t then .ok none else (shorthandParts t).map (boxOf c) := by
  unfold box
  split
  · rfl
  cases hparts : shorthandParts t with
  | error f => rfl
  | ok parts =>
    show Noted.result _ = .ok (boxOf c parts)
    dsimp only
    split
    · next hcount =>
      have hnone : boxOf c parts = none := Option.eq_none_iff_forall_ne_some.mpr fun b hb => by
        have := length_of_boxOf hb
        omega
      rw [hnone]
      rfl
    rw [boxOf_eq c t]
    cases hedges : parts.mapM (edge c t) with
    | ok edges =>
      dsimp only
      show Noted.result _ = .ok (BoxEdges.expand? edges)
      cases BoxEdges.expand? edges <;> rfl
    | error why =>
      cases why with
      | fault f =>
        obtain ⟨part, -, hpart⟩ := exists_fault_of_mapM hedges
        exact absurd hpart (edge_ne_fault c t part f)
      | _ => rfl

/-- A shorthand that is cut into parts, one of which is miscased. -/
def HasMiscasedPart (t : Text) : Prop := IsShort t ∧ ∃ part ∈ partTexts t, IsMiscased part

theorem caseCountsIn_box (c : Context) :
    CaseCountsIn Text.IsRecased HasMiscasedPart fun t => (attempt (box c t)).result where
  nothing t h := by
    obtain ⟨hshort, hparts⟩ := h
    rw [result_attempt_box, shorthandParts_of_isShort hshort]
    split
    · rfl
    · exact congrArg Except.ok (boxOf_of_isMiscased hparts)
  same t u h ht hu := by
    have hblank : Text.isBlankText t = Text.isBlankText u := by
      rw [← isTranscription_toLower.isBlankText_map t, ← isTranscription_toLower.isBlankText_map u]
      exact congrArg Text.isBlankText h
    have hmade {t : Text} (ht : ¬HasMiscasedPart t) : (shorthandParts t).map (boxOf c)
        = ((shorthandParts t).map (List.map asciiLower)).map (boxOf c) := by
      cases hparts : shorthandParts t with
      | error f => rfl
      | ok parts =>
        obtain ⟨hshort, rfl⟩ := shorthandParts_eq_ok hparts
        refine congrArg Except.ok (boxOf_asciiLower fun part hpart hmiscased => ?_).symm
        exact ht ⟨hshort, part, hpart, hmiscased⟩
    rw [result_attempt_box, result_attempt_box, hblank, hmade ht, hmade hu,
      ← shorthandParts_asciiLower t, ← shorthandParts_asciiLower u, h]

end Resolver

/-! ## Colours -/

theorem Color.result_attempt_of_isRecased {t u : Text} (h : t.IsRecased u) :
    (Color.attempt t).result = (Color.attempt u).result := by
  have hread : Color.read t = Color.read u := by
    rw [← Color.read_asciiLower t, ← Color.read_asciiLower u, h]
  unfold Color.attempt
  rw [hread]
  split <;> rfl

end CssValues
