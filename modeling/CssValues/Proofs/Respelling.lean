import CssValues.Proofs.Spelling
import CssValues.Proofs.Token.Normalize

/-!
# Other spellings of values

How a value resolves depends on its trimmed text only, and for a calculation on the words inside
(`Resolver.size_of_respelled`). So a value resolves as before when its line breaks are made one kind.
-/

namespace CssValues

/-! ## Other spellings of a value -/

/-- The same text when trimmed, or a calculation with the same words inside. -/
inductive Respelled (s t : Text) : Prop where
  | same (h : s.trim = t.trim)
  | calculation {body body' : Text} (hs : s.trim = CalcSource.opening ++ body ++ [')'])
      (ht : t.trim = CalcSource.opening ++ body' ++ [')']) (hne : Text.isBlankText body = false)
      (hwords : body.words = body'.words)

namespace Respelled

variable {c : Context} {s t : Text}

theorem trim (h : Respelled s t) : Respelled s.trim t.trim := by
  cases h with
  | same h => exact .same (congrArg Text.trim h)
  | calculation hs ht hne hwords =>
    refine .calculation ?_ ?_ hne hwords
    · rw [Text.trim_trim, hs]
    · rw [Text.trim_trim, ht]

theorem ne_nil (h : Respelled s t) (hs : Spelled s.trim) : t.trim ≠ [] := by
  cases h with
  | same h =>
    rw [← h]
    exact hs.ne_nil
  | calculation _ ht _ _ => simp [ht]

theorem ofText?_eq (h : Respelled s t) : CalcSource.ofText? s = CalcSource.ofText? t := by
  cases h with
  | same h =>
    unfold CalcSource.ofText? CalcSource.body?
    rw [h]
  | calculation hs ht hne hwords =>
    unfold CalcSource.ofText?
    rw [CalcSource.body?_of_trim hs hne,
      CalcSource.body?_of_trim ht (Text.isBlankText_eq_of_words hwords hne)]
    simp only [Option.map_some, hwords]

theorem isValid_eq (h : Respelled s t) : CalcSource.isValid s = CalcSource.isValid t := by
  have := congrArg Option.isSome h.ofText?_eq
  simpa [CalcSource.isValid, CalcSource.ofText?] using this

theorem read_eq (h : Respelled s t) : CalcExpression.read s = CalcExpression.read t := by
  unfold CalcExpression.read
  rw [h.ofText?_eq]

/-- Spellings differ in calculations only. -/
theorem trim_eq (h : Respelled s t) (hvalid : CalcSource.isValid s.trim = false) :
    s.trim = t.trim := by
  cases h with
  | same h => exact h
  | calculation hs _ hne _ =>
    rw [CalcSource.isValid, CalcSource.body?_of_trim (by rw [Text.trim_trim, hs]) hne] at hvalid
    cases hvalid

end Respelled

namespace Resolver

variable {c : Context} {s t : Text}

theorem finite_eq_ok {p : Except Fault Number} {n : Number} (h : finite s p = .ok n) (t : Text) :
    finite t p = .ok n := by
  unfold finite at h ⊢
  split at h
  · cases h
  · split at h
    · cases h
    · exact h
    · cases h

theorem map_finite_eq_ok {p : Except Fault Number} {r : Size}
    (h : (finite s p).map .pixels = .ok r) (t : Text) : (finite t p).map .pixels = .ok r := by
  cases hfinite : finite s p with
  | error why => rw [hfinite] at h; cases h
  | ok n =>
    rw [hfinite] at h
    rw [finite_eq_ok hfinite t]
    exact h

theorem calculation_of_respelled {n : Number} (h : Respelled s t)
    (hs : calculation c s = .ok n) : calculation c t = .ok n := by
  obtain ⟨e, he, hfinite⟩ := exists_calculation hs
  unfold calculation
  rw [← h.read_eq, he]
  exact finite_eq_ok hfinite t

/-- Another spelling of a value in pixels resolves to the same pixels. -/
theorem pixels_of_respelled {n : Number} (h : Respelled s t) (hs : pixels c s = .ok n) :
    pixels c t = .ok n := by
  unfold pixels
  dsimp only
  rcases exists_of_pixels hs with ⟨hvalid, hcalc⟩ | ⟨hvalid, l, hl, hfinite⟩
  · rw [if_pos (h.trim.isValid_eq ▸ hvalid)]
    exact calculation_of_respelled h.trim hcalc
  · rw [← h.trim_eq hvalid, if_neg (by simp [hvalid]), hl]
    exact finite_eq_ok hfinite t

theorem calcSize_of_respelled {body body' : Text} {r : Size} (h : Respelled body body')
    (hs : calcSize c s body = .ok r) : calcSize c t body' = .ok r := by
  unfold calcSize at hs ⊢
  rw [← h.read_eq]
  split at hs
  · cases hs
  · next e _ =>
    split at hs
    · next hpercent => rw [if_pos hpercent, hs]
    · next hpercent =>
      rw [if_neg hpercent]
      exact map_finite_eq_ok hs t

/-- Another spelling of a size resolves to the same size. -/
theorem size_of_respelled {r : Size} (h : Respelled s t) (hs : size c s = .ok r) :
    size c t = .ok r := by
  unfold size
  dsimp only
  have hne : t.trim.isEmpty = false := by simpa using h.ne_nil (spelled_of_size hs)
  rw [if_neg (by simp [hne])]
  rcases exists_of_size hs with ⟨hvalid, hcalc⟩ | ⟨hvalid, hpercent, p, hp, rfl⟩
    | ⟨hvalid, hpercent, hkeyword, l, hl, hfinite⟩
  · rw [if_pos (h.trim.isValid_eq ▸ hvalid)]
    exact calcSize_of_respelled h.trim hcalc
  · rw [← h.trim_eq hvalid, if_neg (by simp [hvalid]), if_pos hpercent, hp]
  · rw [← h.trim_eq hvalid, if_neg (by simp [hvalid]), if_neg (by simp [hpercent]),
      if_neg (by simp [hkeyword]), hl]
    exact map_finite_eq_ok hfinite t

end Resolver

/-- Another spelling of a percentage is the same text. -/
theorem Percentage.read_of_respelled {s t : Text} {p : Percentage} (h : Respelled s t)
    (hs : read s = .ok p) : read t = .ok p ∧ ['%'].isSuffixOf t.trim = true := by
  have htrim : s.trim = t.trim := by
    cases h with
    | same h => exact h
    | calculation heq _ _ _ =>
      have hparen := (figures_of_read hs).2 '(' (by simp [heq, CalcSource.opening])
      exact absurd hparen (by decide)
  unfold read at hs ⊢
  rw [htrim] at hs
  refine ⟨hs, ?_⟩
  split at hs
  · next number hsplit =>
    rw [(splitNumber?_chars hsplit).1]
    exact List.isSuffixOf_iff_suffix.mpr (List.suffix_append _ _)
  · cases hs

/-! ## Line breaks of one kind -/

theorem isNormal_of_isFigure {c : Char} (h : isFigure c = true) : Token.isNormal c = true := by
  have hblank := isBlank_of_isFigure h
  simp only [Text.isBlank, Text.isWhiteSpace, Bool.or_eq_false_iff, Bool.and_eq_false_iff,
    decide_eq_false_iff_not] at hblank
  have hnull : c.toNat ≠ 0 := by
    intro hzero
    rw [← Char.ofNat_toNat c, hzero] at h
    exact absurd h (by decide)
  have hreturn : c ≠ '\r' := by
    rintro rfl
    exact absurd h (by decide)
  simp only [Token.isNormal, Bool.and_eq_true, bne_iff_ne]
  exact ⟨⟨hreturn, by omega⟩, hnull⟩

theorem toNat_ne_zero_of_isBlank {c : Char} (h : Text.isBlank c = true) : c.toNat ≠ 0 := by
  intro hzero
  simp [Text.isBlank, Text.isWhiteSpace, hzero] at h

namespace Spelled

variable {t : Text}

/-- Neither end of a spelling is blank. -/
theorem trim_eq (h : Spelled t) : t.trim = t := by
  cases h with
  | figures _ h => exact Text.trimWhere_of_none fun c hc => isBlank_of_isFigure (h c hc)
  | calculation _ _ =>
    refine Text.trimWhere_of_ends ?_ ?_
    · rintro c ⟨⟩
      decide
    · intro c hc
      rw [List.getLast?_concat] at hc
      cases hc
      decide

/-- Making all line breaks of a spelling one kind spells the same value. -/
theorem normalize_core (h : Spelled t) :
    Spelled (Token.normalize t) ∧ Respelled t (Token.normalize t) := by
  cases h with
  | figures hne h =>
    rw [Token.normalize_eq_self fun c hc => isNormal_of_isFigure (h c hc)]
    exact ⟨.figures hne h, .same rfl⟩
  | @calculation body hne h =>
    have hnull : ∀ c ∈ body, c.toNat ≠ 0 := by
      intro c hc
      rcases h c hc with hfigure | hblank
      · have := isNormal_of_isFigure hfigure
        simp only [Token.isNormal, Bool.and_eq_true, bne_iff_ne] at this
        exact this.2
      · exact toNat_ne_zero_of_isBlank hblank
    have heq : Token.normalize (CalcSource.opening ++ body ++ [')'])
        = CalcSource.opening ++ Token.normalize body ++ [')'] := by
      rw [Token.normalize_append (.inr (by simp)), Token.normalize_append (.inl (by decide))]
      rfl
    have hwords := Token.words_normalize hnull
    have hspelled : Spelled (CalcSource.opening ++ Token.normalize body ++ [')']) := by
      refine .calculation (Text.isBlankText_eq_of_words hwords.symm hne) fun c hc => ?_
      rcases Token.mem_normalize hnull hc with rfl | ⟨hc, -⟩
      · exact .inr (by decide)
      · exact h c hc
    rw [heq]
    exact ⟨hspelled,
      .calculation (trim_eq (.calculation hne h)) hspelled.trim_eq hne hwords.symm⟩

/-- The normal form of a text is the normal form of its trimmed text with blanks around. -/
theorem exists_normalize (h : Spelled t.trim) :
    ∃ s e, Token.normalize t = s ++ Token.normalize t.trim ++ e
      ∧ (∀ c ∈ s, Text.isBlank c = true) ∧ ∀ c ∈ e, Text.isBlank c = true := by
  obtain ⟨s, e, ht, hs, he⟩ := Text.exists_trimWhere Text.isBlank t
  refine ⟨Token.normalize s, Token.normalize e, ?_, Token.isBlank_normalize hs,
    Token.isBlank_normalize he⟩
  have hhead : (t.trim ++ e).head? ≠ some '\n' := by
    rw [List.head?_append_of_ne_nil _ h.ne_nil]
    exact fun hc => absurd (Text.head?_trimWhere _ hc) (by decide)
  have hlast : t.trim.getLast? ≠ some '\r' :=
    fun hc => absurd (Text.getLast?_trimWhere _ hc) (by decide)
  have hsplit : Token.normalize (s ++ (t.trim ++ e))
      = Token.normalize s ++ (Token.normalize t.trim ++ Token.normalize e) := by
    rw [Token.normalize_append (.inr hhead), Token.normalize_append (.inl hlast)]
  rw [← List.append_assoc, ← List.append_assoc] at hsplit
  rw [← hsplit]
  exact congrArg Token.normalize ht

theorem trim_normalize (h : Spelled t.trim) :
    (Token.normalize t).trim = Token.normalize t.trim := by
  obtain ⟨s, e, heq, hs, he⟩ := h.exists_normalize
  rw [heq, Text.trim, Text.trimWhere_append hs he]
  exact h.normalize_core.1.trim_eq

/-- A spelling with blanks around is spelled the same when its line breaks are made one kind. -/
theorem respelled_normalize (h : Spelled t.trim) : Respelled t (Token.normalize t) := by
  have hcore := h.normalize_core.2
  cases hcore with
  | same heq =>
    refine .same ?_
    rw [h.trim_normalize, ← h.normalize_core.1.trim_eq, ← heq, h.trim_eq]
  | calculation hs ht hne hwords =>
    refine .calculation ?_ ?_ hne hwords
    · rw [← hs, h.trim_eq]
    · rw [h.trim_normalize, ← ht, h.normalize_core.1.trim_eq]

end Spelled

end CssValues
