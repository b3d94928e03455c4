import CssValues.Proofs.Text.Trim
import CssValues.Token.Basic

/-!
# Line breaks of one kind

Making all line breaks one kind changes neither the words of a text nor what stands between them,
as long as there are no null characters.
-/

namespace CssValues.Token

variable {s t : Text}

/-- Two texts are normalized apart unless a carriage return and a line break meet. -/
theorem normalize_append (h : s.getLast? ≠ some '\r' ∨ t.head? ≠ some '\n') :
    normalize (s ++ t) = normalize s ++ normalize t := by
  fun_induction normalize s with
  | case1 => rfl
  | case2 rest ih =>
    refine congrArg ('\n' :: ·) (ih (h.imp_left fun hlast hr => hlast ?_))
    rw [List.getLast?_cons_cons, List.getLast?_cons, hr]
    rfl
  | case3 c rest hpair ih =>
    have hrest : normalize (rest ++ t) = normalize rest ++ normalize t := by
      refine ih (h.imp_left fun hlast hr => hlast ?_)
      rw [List.getLast?_cons, hr]
      rfl
    rw [List.cons_append, normalize.eq_def]
    split
    · next heq => cases heq
    · next more heq =>
      obtain ⟨rfl, htail⟩ := List.cons.inj heq
      cases rest with
      | nil =>
        -- the carriage return ends `s`, and the line break starts `t`
        rw [List.nil_append] at htail
        rw [htail] at h
        rcases h with h | h
        · exact absurd rfl h
        · exact absurd rfl h
      | cons d rest =>
        obtain ⟨rfl, -⟩ := List.cons.inj htail
        exact absurd rfl (hpair rest rfl)
    · next heq =>
      obtain ⟨rfl, rfl⟩ := List.cons.inj heq
      rw [hrest]
      rfl

/-- A character that has no other form. -/
def isNormal (c : Char) : Bool := c != '\r' && c.toNat != 0x0C && c.toNat != 0

/-- A class of characters that have no other form. -/
theorem isNormal_of {p : Char → Bool}
    (hp : ∀ c ∈ ['\r', Char.ofNat 0x0C, Char.ofNat 0], p c = false) {c : Char} (hc : p c = true) :
    isNormal c = true := by
  by_contra hnot
  have hcode : c = '\r' ∨ c.toNat = 0x0C ∨ c.toNat = 0 := by
    by_contra hnone
    obtain ⟨hreturn, hcodes⟩ := not_or.mp hnone
    exact hnot (by simp [isNormal, hreturn, not_or.mp hcodes])
  have hmem : c ∈ ['\r', Char.ofNat 0x0C, Char.ofNat 0] := by
    rcases hcode with rfl | hcode | hcode
    · simp
    · rw [← hcode, Char.ofNat_toNat]
      simp
    · rw [← hcode, Char.ofNat_toNat]
      simp
  rw [hp c hmem] at hc
  cases hc

theorem normalize_cons {c : Char} (h : isNormal c = true) :
    normalize (c :: t) = c :: normalize t := by
  simp only [isNormal, Bool.and_eq_true, bne_iff_ne] at h
  rw [normalize.eq_def]
  split
  · next heq => cases heq
  · next heq => exact absurd (List.cons.inj heq).1 h.1.1
  · next heq =>
    obtain ⟨rfl, rfl⟩ := List.cons.inj heq
    rw [if_neg (by simp [h]), if_neg h.2]

theorem normalize_eq_self (h : ∀ c ∈ t, isNormal c = true) : normalize t = t := by
  induction t with
  | nil => rfl
  | cons c t ih =>
    rw [normalize_cons (h c List.mem_cons_self), ih fun d hd => h d (List.mem_cons_of_mem _ hd)]

theorem isNormal_of_mem_normalize {c : Char} (hc : c ∈ normalize t) : isNormal c = true := by
  fun_induction normalize t with
  | case1 => cases hc
  | case2 rest ih =>
    rcases List.mem_cons.mp hc with rfl | hc
    · rfl
    · exact ih hc
  | case3 d rest _ ih =>
    rcases List.mem_cons.mp hc with rfl | hc
    · by_cases hbreak : d = '\r' ∨ d.toNat = 0x0C
      · rw [if_pos (by simpa using hbreak)]
        rfl
      · rw [if_neg (by simpa using hbreak)]
        by_cases hnull : d.toNat = 0
        · rw [if_pos hnull]
          decide
        · rw [if_neg hnull]
          simp [isNormal, not_or.mp hbreak, hnull]
    · exact ih hc

/-! ## Texts without null characters -/

theorem mem_normalize (hnull : ∀ c ∈ t, c.toNat ≠ 0) {c : Char} (hc : c ∈ normalize t) :
    c = '\n' ∨ c ∈ t ∧ isNormal c = true := by
  fun_induction normalize t with
  | case1 => cases hc
  | case2 rest ih =>
    rcases List.mem_cons.mp hc with rfl | hc
    · exact .inl rfl
    · exact (ih (fun d hd => hnull d (by simp [hd])) hc).imp_right fun h => ⟨by simp [h.1], h.2⟩
  | case3 d rest hpair ih =>
    rcases List.mem_cons.mp hc with rfl | hc
    · split
      · exact .inl rfl
      · next hbreak =>
        have hd := hnull d List.mem_cons_self
        rw [if_neg hd]
        refine .inr ⟨List.mem_cons_self, ?_⟩
        simpa [isNormal, hd] using hbreak
    · exact (ih (fun d hd => hnull d (List.mem_cons_of_mem _ hd)) hc).imp_right
        fun h => ⟨List.mem_cons_of_mem _ h.1, h.2⟩

theorem isBlank_normalize (h : ∀ c ∈ t, Text.isBlank c = true) :
    ∀ c ∈ normalize t, Text.isBlank c = true := by
  intro c hc
  have hnull : ∀ c ∈ t, c.toNat ≠ 0 := by
    intro c hc hzero
    have := h c hc
    simp [Text.isBlank, Text.isWhiteSpace, hzero] at this
  rcases mem_normalize hnull hc with rfl | ⟨hc, -⟩
  · decide
  · exact h c hc

/-- The first parts of a text and of its normal form are the same, and the later ones differ in
empty parts only. -/
theorem splitWhere_normalize (hnull : ∀ c ∈ t, c.toNat ≠ 0) :
    ∃ w parts parts', Text.splitWhere Text.isBlank t = w :: parts
      ∧ Text.splitWhere Text.isBlank (normalize t) = w :: parts'
      ∧ parts.filter (fun w => !w.isEmpty) = parts'.filter (fun w => !w.isEmpty) := by
  fun_induction normalize t with
  | case1 => exact ⟨[], [], [], rfl, rfl, rfl⟩
  | case2 rest ih =>
    -- two blanks become one, so an empty part is lost
    obtain ⟨w, parts, parts', h1, h2, h3⟩ := ih fun c hc => hnull c (by simp [hc])
    refine ⟨[], [] :: w :: parts, w :: parts', ?_, ?_, ?_⟩
    · simp only [Text.splitWhere, show Text.isBlank '\r' = true by decide,
        show Text.isBlank '\n' = true by decide, if_true, h1]
    · simp only [Text.splitWhere, show Text.isBlank '\n' = true by decide, if_true, h2]
    · simp [List.filter_cons, h3]
  | case3 c rest hpair ih =>
    obtain ⟨w, parts, parts', h1, h2, h3⟩ := ih fun d hd => hnull d (List.mem_cons_of_mem _ hd)
    rw [if_neg (hnull c List.mem_cons_self)]
    by_cases hblank : Text.isBlank c = true
    · refine ⟨[], w :: parts, w :: parts', ?_, ?_, ?_⟩
      · rw [Text.splitWhere, if_pos hblank, h1]
      · rw [Text.splitWhere, if_pos, h2]
        split
        · decide
        · exact hblank
      · simp [List.filter_cons, h3]
    · have hbreak : ¬(decide (c = '\r') || decide (c.toNat = 0x0C)) = true := by
        intro h
        rcases (Bool.or_eq_true _ _).mp h with h | h
        · rw [of_decide_eq_true h] at hblank
          exact hblank (by decide)
        · exact hblank (by simp [Text.isBlank, Text.isWhiteSpace, of_decide_eq_true h])
      refine ⟨c :: w, parts, parts', ?_, ?_, h3⟩
      · rw [Text.splitWhere, if_neg hblank, h1]
      · rw [if_neg hbreak, Text.splitWhere, if_neg hblank, h2]

theorem words_normalize (hnull : ∀ c ∈ t, c.toNat ≠ 0) : (normalize t).words = t.words := by
  obtain ⟨w, parts, parts', h1, h2, h3⟩ := splitWhere_normalize hnull
  rw [Text.words, Text.words, h1, h2, List.filter_cons, List.filter_cons, h3]

end CssValues.Token
