import CssValues.Text.Blank
import Mathlib.Data.List.TakeWhile

/-!
# Trimming and words

What trimming does to texts without blanks and to texts with blanks around them, and where the
characters of a text go when it is divided into words.
-/

namespace CssValues.Text

/-- What holds of every character of a text is decided by going through the text, not through all
characters that there are. -/
instance (priority := high) {p : Char → Prop} [DecidablePred p] (t : Text) :
    Decidable (∀ c ∈ t, p c) := List.decidableBAll p t

/-! ## Which characters are blank -/

theorem isWhiteSpace_of_printing {c : Char} (h1 : 0x20 < c.toNat) (h2 : c.toNat < 0x7F) :
    isWhiteSpace c = false := by
  simp only [isWhiteSpace, Bool.or_eq_false_iff, Bool.and_eq_false_iff, decide_eq_false_iff_not,
    beq_eq_false_iff_ne]
  omega

theorem isBlank_of_printing {c : Char} (h1 : 0x20 < c.toNat) (h2 : c.toNat < 0x7F) :
    isBlank c = false := by
  simp only [isBlank, isWhiteSpace_of_printing h1 h2, Bool.false_or, Bool.and_eq_false_iff,
    decide_eq_false_iff_not]
  omega

/-- A text of blanks only. -/
abbrev Blanks := {t : Text // ∀ c ∈ t, isBlank c = true}

def Blanks.none : Blanks := ⟨[], List.forall_mem_nil _⟩

def Blanks.space : Blanks := ⟨[' '], fun _ h => List.mem_singleton.mp h ▸ rfl⟩

section

variable {p : Char → Bool} {s t e : Text}

/-- What two texts together start with. -/
theorem head?_append_cases {c : Char} (h : c ∈ (s ++ t).head?) : c ∈ s.head? ∨ c ∈ t.head? := by
  cases s with
  | nil => exact .inr h
  | cons d s => exact .inl h

/-! ## Where a run stops -/

section

variable {α : Type} {p : α → Bool} {s t : List α}

theorem takeWhile_append_stop (hs : ∀ c ∈ s, p c = true) (ht : ∀ c ∈ t.head?, p c = false) :
    (s ++ t).takeWhile p = s := by
  rw [List.takeWhile_append_of_pos hs]
  cases t with
  | nil => simp
  | cons c t => simp [ht c rfl]

theorem dropWhile_append_stop (hs : ∀ c ∈ s, p c = true) (ht : ∀ c ∈ t.head?, p c = false) :
    (s ++ t).dropWhile p = t := by
  rw [List.dropWhile_append_of_pos hs]
  cases t with
  | nil => rfl
  | cons c t => simp [ht c rfl]

/-- A run and what stops it are told apart in one way only. -/
theorem append_stop_inj {s' t' : List α} (hs : ∀ c ∈ s, p c = true) (ht : ∀ c ∈ t.head?, p c = false)
    (hs' : ∀ c ∈ s', p c = true) (ht' : ∀ c ∈ t'.head?, p c = false) (h : s ++ t = s' ++ t') :
    s = s' ∧ t = t' := by
  constructor
  · rw [← takeWhile_append_stop hs ht, h, takeWhile_append_stop hs' ht']
  · rw [← dropWhile_append_stop hs ht, h, dropWhile_append_stop hs' ht']

theorem takeWhile_append_end (ht : ∀ c ∈ t.head?, p c = false) :
    (s ++ t).takeWhile p = s.takeWhile p := by
  induction s with
  | nil => exact takeWhile_append_stop (s := []) (by simp) ht
  | cons c s ih => simp only [List.cons_append, List.takeWhile_cons, ih]

theorem dropWhile_append_end (ht : ∀ c ∈ t.head?, p c = false) :
    (s ++ t).dropWhile p = s.dropWhile p ++ t := by
  induction s with
  | nil => exact dropWhile_append_stop (s := []) (by simp) ht
  | cons c s ih =>
    simp only [List.cons_append, List.dropWhile_cons, ih]
    split <;> rfl

theorem drop_length_takeWhile : t.drop (t.takeWhile p).length = t.dropWhile p := by
  have h : (t.takeWhile p ++ t.dropWhile p).drop (t.takeWhile p).length = t.dropWhile p :=
    List.drop_left
  rwa [List.takeWhile_append_dropWhile] at h

theorem head?_dropWhile : ∀ c ∈ (t.dropWhile p).head?, p c = false := by
  intro c hc
  have := List.head?_dropWhile_not p t
  rw [hc] at this
  exact this

/-- A list can be cut where its last run of elements satisfying `p` starts. -/
theorem exists_trimEnd (p : α → Bool) (t : List α) :
    ∃ s e, t = s ++ e ∧ (∀ c ∈ s.getLast?, p c = false) ∧ ∀ c ∈ e, p c = true := by
  refine ⟨(t.reverse.dropWhile p).reverse, (t.reverse.takeWhile p).reverse, ?_, ?_, ?_⟩
  · rw [← List.reverse_append, List.takeWhile_append_dropWhile, List.reverse_reverse]
  · rw [List.getLast?_reverse]
    exact head?_dropWhile
  · exact fun c hc => List.mem_takeWhile_imp (List.mem_reverse.mp hc)

end

/-! ## Texts without blanks -/

theorem dropWhile_of_head? (h : ∀ c ∈ t.head?, p c = false) : t.dropWhile p = t := by
  cases t with
  | nil => rfl
  | cons c t => simp [h c rfl]

theorem trimWhere_of_ends (hfirst : ∀ c ∈ t.head?, p c = false)
    (hlast : ∀ c ∈ t.getLast?, p c = false) : trimWhere p t = t := by
  unfold trimWhere
  rw [dropWhile_of_head? hfirst, dropWhile_of_head?, List.reverse_reverse]
  rw [List.head?_reverse]
  exact hlast

theorem trimWhere_of_none (h : ∀ c ∈ t, p c = false) : trimWhere p t = t :=
  trimWhere_of_ends (fun c hc => h c (List.mem_of_mem_head? hc))
    (fun c hc => h c (List.mem_of_mem_getLast? hc))

/-! ## Texts with blanks around them -/

theorem trimWhere_append (hs : ∀ c ∈ s, p c = true) (he : ∀ c ∈ e, p c = true) :
    trimWhere p (s ++ t ++ e) = trimWhere p t := by
  unfold trimWhere
  rw [List.append_assoc, List.dropWhile_append_of_pos hs, List.dropWhile_append]
  split
  · next hnone =>
    rw [List.isEmpty_iff.mp hnone, List.dropWhile_eq_nil_iff.2 he]
  · rw [List.reverse_append, List.dropWhile_append_of_pos]
    intro c hc
    exact he c (List.mem_reverse.mp hc)

/-- Trimming takes something off both ends. -/
theorem exists_trimWhere (p : Char → Bool) (t : Text) :
    ∃ s e, t = s ++ trimWhere p t ++ e ∧ (∀ c ∈ s, p c = true) ∧ ∀ c ∈ e, p c = true := by
  refine ⟨t.takeWhile p, ((t.dropWhile p).reverse.takeWhile p).reverse, ?_, ?_, ?_⟩
  · rw [trimWhere, List.append_assoc, ← List.reverse_append, List.takeWhile_append_dropWhile,
      List.reverse_reverse, List.takeWhile_append_dropWhile]
  · exact fun c hc => List.mem_takeWhile_imp hc
  · exact fun c hc => List.mem_takeWhile_imp (List.mem_reverse.mp hc)

theorem getLast?_trimWhere : ∀ c ∈ (trimWhere p t).getLast?, p c = false := by
  unfold trimWhere
  rw [List.getLast?_reverse]
  exact head?_dropWhile

theorem head?_trimWhere : ∀ c ∈ (trimWhere p t).head?, p c = false := by
  intro c hc
  have hfront : (trimWhere p t) <+: t.dropWhile p := by
    rw [trimWhere, ← List.reverse_suffix, List.reverse_reverse]
    exact List.dropWhile_suffix p
  obtain ⟨e, he⟩ := hfront
  refine head?_dropWhile (t := t) c ?_
  rw [← he, List.head?_append, hc]
  rfl

theorem trimWhere_trimWhere : trimWhere p (trimWhere p t) = trimWhere p t :=
  trimWhere_of_ends head?_trimWhere getLast?_trimWhere

theorem trim_trim : t.trim.trim = t.trim := trimWhere_trimWhere

/-- Trimming keeps what does not satisfy `p`. -/
theorem mem_trimWhere {c : Char} (hc : c ∈ t) (h : p c = false) : c ∈ trimWhere p t := by
  obtain ⟨s, e, ht, hs, he⟩ := exists_trimWhere p t
  have hne {u : Text} (hu : ∀ c ∈ u, p c = true) : c ∉ u := fun hmem => by
    rw [hu c hmem] at h
    cases h
  rw [ht] at hc
  rcases List.mem_append.mp hc with hc | hc
  · exact (List.mem_append.mp hc).resolve_left (hne hs)
  · exact absurd hc (hne he)

/-- What holds of a front that is dropped and of the rest holds of all characters. -/
theorem forall_of_dropWhile {q : Char → Prop} (hfront : ∀ c, p c = true → q c)
    (hrest : ∀ c ∈ t.dropWhile p, q c) : ∀ c ∈ t, q c := by
  intro c hc
  rw [← List.takeWhile_append_dropWhile (p := p) (l := t)] at hc
  exact (List.mem_append.mp hc).elim (fun h => hfront c (List.mem_takeWhile_imp h)) (hrest c)

/-- What holds of the characters of a trimmed text and of blanks holds of all characters. -/
theorem forall_of_trim {q : Char → Prop} (hblank : ∀ c, isBlank c = true → q c)
    (htrim : ∀ c ∈ t.trim, q c) : ∀ c ∈ t, q c := by
  intro c hc
  cases h : isBlank c with
  | true => exact hblank c h
  | false => exact htrim c (mem_trimWhere hc h)

theorem of_mem_trimWhere {c : Char} (hc : c ∈ trimWhere p t) : c ∈ t := by
  obtain ⟨s, e, ht, -, -⟩ := exists_trimWhere p t
  rw [ht]
  exact List.mem_append_left _ (List.mem_append_right _ hc)

/-- A text with something left when trimmed is not blank. -/
theorem exists_of_trim_ne_nil (h : t.trim ≠ []) : ∃ c ∈ t, isBlank c = false := by
  obtain ⟨c, rest, hcons⟩ := List.exists_cons_of_ne_nil h
  have hc : isBlank c = false := head?_trimWhere (t := t) c (by rw [← trim, hcons]; rfl)
  obtain ⟨s, e, ht, -, -⟩ := exists_trimWhere isBlank t
  refine ⟨c, ?_, hc⟩
  rw [ht, ← trim, hcons]
  simp

theorem trim_eq_nil_iff : t.trim = [] ↔ isBlankText t = true := by
  constructor
  · intro h
    refine List.all_eq_true.mpr fun c hc => ?_
    by_contra hblank
    have hmem : c ∈ t.trim := mem_trimWhere hc (Bool.eq_false_iff.mpr hblank)
    rw [h] at hmem
    cases hmem
  · intro h
    by_contra hne
    obtain ⟨c, hc, hblank⟩ := exists_of_trim_ne_nil hne
    rw [List.all_eq_true.mp h c hc] at hblank
    cases hblank

theorem isBlankText_trim (h : t.trim ≠ []) : isBlankText t.trim = false := by
  cases hcons : t.trim with
  | nil => exact absurd hcons h
  | cons c rest =>
    have hc : isBlank c = false := head?_trimWhere (t := t) c (by rw [← trim, hcons]; rfl)
    rw [isBlankText, List.all_cons, hc, Bool.false_and]

/-! ## Words -/

theorem splitWhere_ne_nil (isSeparator : Char → Bool) (t : Text) :
    splitWhere isSeparator t ≠ [] := by
  cases t with
  | nil => exact List.cons_ne_nil _ _
  | cons c t =>
    unfold splitWhere
    split
    · exact List.cons_ne_nil _ _
    · split <;> exact List.cons_ne_nil _ _

theorem mem_splitWhere {c : Char} (hc : c ∈ t) : p c = true ∨ ∃ w ∈ splitWhere p t, c ∈ w := by
  induction t with
  | nil => cases hc
  | cons d t ih =>
    unfold splitWhere
    by_cases hd : p d = true
    · rw [if_pos hd]
      rcases List.mem_cons.mp hc with rfl | hc
      · exact .inl hd
      · exact (ih hc).imp_right fun ⟨w, hw, hcw⟩ => ⟨w, List.mem_cons_of_mem _ hw, hcw⟩
    · rw [if_neg hd]
      split
      · next hnone =>
        rw [hnone] at ih
        rcases List.mem_cons.mp hc with rfl | hc
        · exact .inr ⟨[c], List.mem_singleton_self _, List.mem_singleton_self _⟩
        · exact (ih hc).imp_right fun ⟨w, hw, _⟩ => nomatch hw
      · next part parts hparts =>
        rw [hparts] at ih
        rcases List.mem_cons.mp hc with rfl | hc
        · exact .inr ⟨c :: part, List.mem_cons_self, List.mem_cons_self⟩
        · rcases ih hc with hblank | ⟨w, hw, hcw⟩
          · exact .inl hblank
          · rcases List.mem_cons.mp hw with rfl | hw
            · exact .inr ⟨d :: w, List.mem_cons_self, List.mem_cons_of_mem _ hcw⟩
            · exact .inr ⟨w, List.mem_cons_of_mem _ hw, hcw⟩

/-- No part has a character that the text was divided at. -/
theorem of_mem_splitWhere {w : Text} (hw : w ∈ splitWhere p t) : ∀ c ∈ w, p c = false := by
  induction t generalizing w with
  | nil =>
    rw [List.mem_singleton.mp hw]
    exact List.forall_mem_nil _
  | cons d t ih =>
    unfold splitWhere at hw
    split at hw
    · rcases List.mem_cons.mp hw with rfl | hw
      · exact List.forall_mem_nil _
      · exact ih hw
    · next hd =>
      rw [Bool.not_eq_true] at hd
      have hfirst : ∀ part : Text, (∀ c ∈ part, p c = false) → ∀ c ∈ d :: part, p c = false :=
        fun part hpart => List.forall_mem_cons.mpr ⟨hd, hpart⟩
      split at hw
      · rw [List.mem_singleton.mp hw]
        exact hfirst [] (List.forall_mem_nil _)
      · next part parts hparts =>
        rw [hparts] at ih
        rcases List.mem_cons.mp hw with rfl | hw
        · exact hfirst part (ih List.mem_cons_self)
        · exact ih (List.mem_cons_of_mem _ hw)

end

theorem mem_join {separator w : Text} {texts : List Text} {c : Char} (hw : w ∈ texts)
    (hc : c ∈ w) : c ∈ join separator texts := by
  induction texts with
  | nil => cases hw
  | cons t texts ih =>
    cases texts with
    | nil =>
      rw [List.mem_singleton.mp hw] at hc
      exact hc
    | cons u rest =>
      unfold join
      rcases List.mem_cons.mp hw with rfl | hw
      · exact List.mem_append_left _ (List.mem_append_left _ hc)
      · exact List.mem_append_right _ (ih hw)

/-- What is put together comes from the texts or from the separator. -/
theorem of_mem_join {separator : Text} {texts : List Text} {c : Char}
    (hc : c ∈ join separator texts) : c ∈ separator ∨ ∃ w ∈ texts, c ∈ w := by
  induction texts with
  | nil => cases hc
  | cons t texts ih =>
    cases texts with
    | nil => exact .inr ⟨t, List.mem_cons_self, hc⟩
    | cons u rest =>
      unfold join at hc
      rcases List.mem_append.mp hc with hc | hc
      · rcases List.mem_append.mp hc with hc | hc
        · exact .inr ⟨t, List.mem_cons_self, hc⟩
        · exact .inl hc
      · exact (ih hc).imp_right fun ⟨w, hw, hcw⟩ => ⟨w, List.mem_cons_of_mem _ hw, hcw⟩

theorem words_of_blank {t : Text} (h : isBlankText t = true) : t.words = [] := by
  induction t with
  | nil => rfl
  | cons c t ih =>
    obtain ⟨hc, ht⟩ := Bool.and_eq_true_iff.mp (List.all_cons.symm.trans h)
    rw [words, splitWhere, if_pos hc]
    exact ih ht

/-- What is not blank is still there when the words are put together again. -/
theorem mem_join_words {t : Text} {c : Char} (hc : c ∈ t) :
    isBlank c = true ∨ c ∈ join [' '] t.words := by
  rcases mem_splitWhere (p := isBlank) hc with hblank | ⟨w, hw, hcw⟩
  · exact .inl hblank
  · refine .inr (mem_join (w := w) ?_ hcw)
    have hne : w.isEmpty = false := by cases w with
      | nil => cases hcw
      | cons _ _ => rfl
    rw [words, List.mem_filter, hne]
    exact ⟨hw, rfl⟩

/-- Among words put together there is no blank but the space. -/
theorem of_mem_join_words {t : Text} {c : Char} (hc : c ∈ join [' '] t.words) :
    c = ' ' ∨ isBlank c = false := by
  rcases of_mem_join hc with hspace | ⟨w, hw, hcw⟩
  · exact .inl (List.mem_singleton.mp hspace)
  · exact .inr (of_mem_splitWhere (List.mem_filter.mp hw).1 c hcw)

theorem splitWhere_of_none {p : Char → Bool} {t : Text} (h : ∀ c ∈ t, p c = false) :
    splitWhere p t = [t] := by
  induction t with
  | nil => rfl
  | cons c t ih =>
    rw [splitWhere, if_neg (by simp [h c List.mem_cons_self]),
      ih fun d hd => h d (List.mem_cons_of_mem _ hd)]

theorem splitWhere_append {p : Char → Bool} {s : Text} {b : Char} (h : ∀ c ∈ s, p c = false)
    (hb : p b = true) (t : Text) : splitWhere p (s ++ b :: t) = s :: splitWhere p t := by
  induction s with
  | nil => rw [List.nil_append, splitWhere, if_pos hb]
  | cons c s ih =>
    rw [List.cons_append, splitWhere, if_neg (by simp [h c List.mem_cons_self]),
      ih fun d hd => h d (List.mem_cons_of_mem _ hd)]

/-- A word is put in front of the words of a text by a blank behind it. -/
theorem words_append {s : Text} {b : Char} (hs : ∀ c ∈ s, isBlank c = false) (hne : s ≠ [])
    (hb : isBlank b = true) (t : Text) : words (s ++ b :: t) = s :: words t := by
  rw [words, splitWhere_append hs hb, List.filter_cons_of_pos (by simp [hne])]
  rfl

/-- Words put together with spaces are found again. -/
theorem words_join {ws : List Text} (h : ∀ w ∈ ws, w ≠ [] ∧ ∀ c ∈ w, isBlank c = false) :
    words (join [' '] ws) = ws := by
  induction ws with
  | nil => rfl
  | cons w ws ih =>
    obtain ⟨hne, hw⟩ := h w List.mem_cons_self
    cases ws with
    | nil => rw [join, words, splitWhere_of_none hw, List.filter_cons_of_pos (by simp [hne])]; rfl
    | cons v rest =>
      rw [join, List.append_assoc, List.singleton_append, words_append hw hne (by decide),
        ih fun u hu => h u (List.mem_cons_of_mem _ hu)]

/-- Whether a text is blank can be told from its words. -/
theorem isBlankText_eq_of_words {s t : Text} (h : s.words = t.words) (hs : isBlankText s = false) :
    isBlankText t = false := by
  cases ht : isBlankText t with
  | false => rfl
  | true =>
    rw [isBlankText, List.all_eq_false] at hs
    obtain ⟨c, hc, hblank⟩ := hs
    rcases mem_join_words hc with hyes | hmem
    · exact absurd hyes hblank
    · rw [h, words_of_blank ht] at hmem
      cases hmem

end CssValues.Text
