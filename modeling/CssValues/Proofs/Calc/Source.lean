import CssValues.Proofs.Resolver.Calculation
import Mathlib.Logic.Relation

/-!
# The white space of a calculation

The body of a calculation is kept with single spaces between its words and nothing at its ends
(`Text.isNormal_join_words`). Changing the white space of a text step by step keeps its words, and
leads from every text to the one that is kept (`Text.reflTransGen_join_words`). So the body that is
kept is a canonical form: two texts are the same calculation just if they differ in white space. Main
result: `CalcSource.canonical`.
-/

namespace CssValues

namespace Text

open Relation (ReflTransGen)

variable {s t : Text}

/-! ## Changing white space -/

/-- One change of the white space of a text: blanks that stand somewhere give place to other ones,
or there are more or fewer of them at the ends. -/
inductive Reblanked : Text → Text → Prop where
  | inside (s : Text) (v w : Blanks) (t : Text) (hv : v.val ≠ []) (hw : w.val ≠ []) :
    Reblanked (s ++ v.val ++ t) (s ++ w.val ++ t)
  | ends (v w v' w' : Blanks) (t : Text) : Reblanked (v.val ++ t ++ w.val) (v'.val ++ t ++ w'.val)

theorem Reblanked.symm (h : Reblanked s t) : Reblanked t s := by
  cases h with
  | inside s v w t hv hw => exact .inside s w v t hw hv
  | ends v w v' w' t => exact .ends v' w' v w t

/-- A separator divides the parts of what stands before it from the parts of what follows. -/
theorem splitWhere_append_separator {p : Char → Bool} {b : Char} (hb : p b = true) (s t : Text) :
    splitWhere p (s ++ b :: t) = splitWhere p s ++ splitWhere p t := by
  induction s with
  | nil => exact (if_pos hb : splitWhere p (b :: t) = [] :: splitWhere p t)
  | cons c s ih =>
    obtain ⟨part, parts, hs⟩ := List.exists_cons_of_ne_nil (splitWhere_ne_nil p s)
    rw [List.cons_append, splitWhere, splitWhere, ih, hs]
    split <;> rfl

/-- Blanks divide the words before them from the words behind. -/
theorem words_append_blanks_append {v : Blanks} (hv : v.val ≠ []) (s t : Text) :
    words (s ++ v.val ++ t) = words s ++ words t := by
  obtain ⟨b, w, hcons⟩ := List.exists_cons_of_ne_nil hv
  have hblank : ∀ c ∈ b :: w, isBlank c = true := hcons ▸ v.property
  have hrest : words (w ++ t) = words t :=
    words_blanks_append ⟨w, fun c hc => hblank c (List.mem_cons_of_mem _ hc)⟩ t
  rw [hcons, List.append_assoc, List.cons_append, words,
    splitWhere_append_separator (hblank b List.mem_cons_self), List.filter_append, ← words, ← words,
    hrest]

/-- Changes of the white space keep the words. -/
theorem Reblanked.words_eq (h : Reblanked s t) : s.words = t.words := by
  -- blanks at the end, if there are any, end the last word
  have hend (t : Text) (w : Blanks) : words (t ++ w.val) = words t := by
    by_cases hw : w.val = []
    · rw [hw, List.append_nil]
    · have happend := words_append_blanks_append hw t []
      rwa [List.append_nil, words_of_blank (t := []) rfl, List.append_nil] at happend
  cases h with
  | inside s v w t hv hw => rw [words_append_blanks_append hv, words_append_blanks_append hw]
  | ends v w v' w' t =>
    rw [List.append_assoc, List.append_assoc, words_blanks_append, words_blanks_append, hend, hend]

/-! ## Normal white space -/

/-- No blanks at the ends, and no blanks inside but single spaces. -/
structure IsNormal (t : Text) : Prop where
  head : ∀ c ∈ t.head?, isBlank c = false
  last : ∀ c ∈ t.getLast?, isBlank c = false
  space : ∀ c ∈ t, isBlank c = true → c = ' '
  single : ∀ s r, t ≠ s ++ ' ' :: ' ' :: r

theorem isWord_of_mem_words {w : Text} (h : w ∈ t.words) : w.IsWord := by
  obtain ⟨hsplit, hne⟩ := List.mem_filter.mp h
  exact ⟨by simpa using hne, of_mem_splitWhere hsplit⟩

theorem IsWord.isNormal (h : s.IsWord) : s.IsNormal where
  head c hc := h.2 c (List.mem_of_mem_head? hc)
  last c hc := h.2 c (List.mem_of_mem_getLast? hc)
  space c hc hblank := by
    rw [h.2 c hc] at hblank
    cases hblank
  single u r heq := by
    have hspace := h.2 ' ' (heq ▸ List.mem_append_right u List.mem_cons_self)
    exact absurd hspace (by decide)

/-- A word, a space and a normal text are a normal text. -/
theorem IsWord.isNormal_append (hs : s.IsWord) (ht : t.IsNormal) (hne : t ≠ []) :
    (s ++ ' ' :: t).IsNormal where
  head c hc := by
    obtain ⟨d, rest, rfl⟩ := List.exists_cons_of_ne_nil hs.1
    exact hs.2 c (List.mem_of_mem_head? hc)
  last c hc := by
    rw [List.getLast?_append_cons, List.getLast?_cons_of_ne_nil hne] at hc
    exact ht.last c hc
  space c hc hblank := by
    rcases List.mem_append.mp hc with hc | hc
    · exact hs.isNormal.space c hc hblank
    rcases List.mem_cons.mp hc with rfl | hc
    · rfl
    · exact ht.space c hc hblank
  single u r heq := by
    have hspace : ' ' ∉ s := fun hmem => absurd (hs.2 ' ' hmem) (by decide)
    rcases List.append_eq_append_iff.mp heq with ⟨a, rfl, ha⟩ | ⟨a, rfl, ha⟩
    · -- two spaces in a row are in the normal text, or the first of them is the one before it
      cases a with
      | nil =>
        have hhead := ht.head ' ' (by rw [(List.cons.inj ha).2]; rfl)
        exact absurd hhead (by decide)
      | cons d a => exact ht.single a r (List.cons.inj ha).2
    · cases a with
      | nil =>
        have hhead := ht.head ' ' (by rw [← (List.cons.inj ha).2]; rfl)
        exact absurd hhead (by decide)
      | cons d a =>
        obtain rfl := (List.cons.inj ha).1
        exact hspace (List.mem_append_right u List.mem_cons_self)

theorem join_ne_nil {ws : List Text} (hne : ws ≠ []) (h : ∀ w ∈ ws, w.IsWord) :
    join [' '] ws ≠ [] := by
  obtain ⟨w, rest, rfl⟩ := List.exists_cons_of_ne_nil hne
  obtain ⟨c, more, rfl⟩ := List.exists_cons_of_ne_nil (h w List.mem_cons_self).1
  exact List.ne_nil_of_mem (mem_join List.mem_cons_self List.mem_cons_self)

theorem isNormal_join {ws : List Text} (h : ∀ w ∈ ws, w.IsWord) : (join [' '] ws).IsNormal := by
  induction ws with
  | nil => exact ⟨nofun, nofun, nofun, by simp [join]⟩
  | cons w ws ih =>
    obtain ⟨hw, hws⟩ := List.forall_mem_cons.mp h
    cases ws with
    | nil => exact hw.isNormal
    | cons u rest =>
      rw [join, List.append_assoc, List.singleton_append]
      exact hw.isNormal_append (ih hws) (join_ne_nil (List.cons_ne_nil _ _) hws)

theorem isNormal_join_words (t : Text) : (join [' '] t.words).IsNormal :=
  isNormal_join fun _ => isWord_of_mem_words

/-! ## Every text can be brought to its normal form -/

/-- Behind a space the white space of a text can be changed as if it stood alone. -/
theorem Reblanked.append_space (s : Text) {t t' : Text} (h : Reblanked t t') :
    ReflTransGen Reblanked (s ++ ' ' :: t) (s ++ ' ' :: t') := by
  have hspaced (v : Blanks) : ∀ c ∈ ' ' :: v.val, isBlank c = true :=
    List.forall_mem_cons.mpr ⟨by decide, v.property⟩
  cases h with
  | inside u v w t hv hw =>
    have hstep := Reblanked.inside (s ++ ' ' :: u) v w t hv hw
    simp only [List.append_assoc, List.cons_append] at hstep ⊢
    exact .single hstep
  | ends v w v' w' t =>
    have hfront := Reblanked.inside s ⟨_, hspaced v⟩ ⟨_, hspaced v'⟩ (t ++ w.val)
      (List.cons_ne_nil _ _) (List.cons_ne_nil _ _)
    have hback := Reblanked.ends .none w .none w' (s ++ ' ' :: v'.val ++ t)
    simp only [Blanks.none, List.nil_append, List.append_assoc, List.cons_append] at hfront hback ⊢
    exact .tail (.single hfront) hback

/-- A text without its first blanks starts with a word, unless nothing is left of it. -/
theorem exists_word_append (ht : t ≠ []) (hhead : ∀ c ∈ t.head?, isBlank c = false) :
    ∃ s rest, t = s ++ rest ∧ s.IsWord ∧ ∀ c ∈ rest.head?, isBlank c = true := by
  refine ⟨t.takeWhile (!isBlank ·), t.dropWhile (!isBlank ·),
    List.takeWhile_append_dropWhile.symm, ⟨?_, fun c hc => ?_⟩, fun c hc => ?_⟩
  · obtain ⟨c, rest, rfl⟩ := List.exists_cons_of_ne_nil ht
    simp [hhead c rfl]
  · simpa using List.mem_takeWhile_imp hc
  · simpa using head?_dropWhile (p := (!isBlank ·)) c hc

/-- **Normal form.** Changes of its white space lead from a text to its words with single spaces
between them. -/
theorem reflTransGen_join_words (t : Text) : ReflTransGen Reblanked t (join [' '] t.words) := by
  induction hlength : t.length using Nat.strong_induction_on generalizing t with
  | h n ih =>
  subst hlength
  let v : Blanks := ⟨t.takeWhile isBlank, fun c hc => List.mem_takeWhile_imp hc⟩
  have ht : t = v.val ++ t.dropWhile isBlank := List.takeWhile_append_dropWhile.symm
  have hfront : Reblanked t (t.dropWhile isBlank) := by
    have hstep := Reblanked.ends v .none .none .none (t.dropWhile isBlank)
    rwa [← ht, Blanks.none, List.append_nil, List.append_nil, List.nil_append] at hstep
  refine .head hfront ?_
  rw [hfront.words_eq]
  have hshort : (t.dropWhile isBlank).length ≤ t.length := (List.dropWhile_suffix _).length_le
  have hhead : ∀ c ∈ (t.dropWhile isBlank).head?, isBlank c = false := head?_dropWhile
  by_cases hnil : t.dropWhile isBlank = []
  · rw [hnil]
    exact .refl
  obtain ⟨s, rest, hsplit, hs, hrest⟩ := exists_word_append hnil hhead
  rw [hsplit] at hshort ⊢
  cases rest with
  | nil =>
    rw [List.append_nil, show words s = [s] from words_append_blanks hs .none ▸ by
      simp [Blanks.none]]
    exact .refl
  | cons b rest =>
    have hb : isBlank b = true := hrest b rfl
    rw [words_append hs.2 hs.1 hb]
    cases hwords : words rest with
    | nil =>
      -- only blanks are left
      have hblank : ∀ c ∈ b :: rest, isBlank c = true := by
        refine List.forall_mem_cons.mpr ⟨hb, fun c hc => ?_⟩
        rcases mem_join_words hc with hblank | hmem
        · exact hblank
        · rw [hwords] at hmem
          cases hmem
      have hstep := Reblanked.ends .none ⟨b :: rest, hblank⟩ .none .none s
      rw [Blanks.none, List.append_nil, List.nil_append] at hstep
      exact .single hstep
    | cons u us =>
      have hspace := Reblanked.inside s ⟨[b], by simpa using hb⟩ .space rest
        (List.cons_ne_nil _ _) (List.cons_ne_nil _ _)
      have hlater := ih rest.length
        (by simp only [List.length_append, List.length_cons] at hshort; omega) rest rfl
      rw [hwords] at hlater
      simp only [Blanks.space, List.append_assoc, List.singleton_append] at hspace
      rw [join, List.append_assoc, List.singleton_append]
      exact .head hspace (hlater.lift' (s ++ ' ' :: ·) fun _ _ => Reblanked.append_space s)

end Text

namespace CalcSource

open Relation (ReflTransGen)

variable {s : CalcSource} {t t' body : Text}

/-! ## Changing the white space of a calculation -/

/-- One change of the white space of a calculation, inside the parentheses or around the whole. -/
inductive Respaced : Text → Text → Prop where
  | body {b b' : Text} (h : b.Reblanked b') :
    Respaced (opening ++ b ++ [')']) (opening ++ b' ++ [')'])
  | around (v w v' w' : Text.Blanks) (t : Text) :
    Respaced (v.val ++ t ++ w.val) (v'.val ++ t ++ w'.val)

instance : Std.Symm Respaced where
  symm t t' h := by
    cases h with
    | body h => exact .body h.symm
    | around v w v' w' t => exact .around v' w' v w t

/-- There are no blanks around what starts with a letter and ends with a parenthesis. -/
theorem trim_parenthesized (body : Text) :
    Text.trim (opening ++ body ++ [')']) = opening ++ body ++ [')'] := by
  refine Text.trimWhere_of_ends ?_ ?_
  · rintro c ⟨⟩
    decide
  · rw [List.getLast?_concat]
    rintro c ⟨⟩
    decide

theorem ofText?_parenthesized (h : Text.isBlankText body = false) :
    ofText? (opening ++ body ++ [')']) = some ⟨Text.join [' '] body.words⟩ := by
  rw [ofText?, body?_of_trim (trim_parenthesized body) h]
  rfl

theorem ofText?_parenthesized_blank (h : Text.isBlankText body = true) :
    ofText? (opening ++ body ++ [')']) = none := by
  rw [ofText?, Option.map_eq_none_iff, Option.eq_none_iff_forall_ne_some]
  intro b hb
  obtain ⟨htrim, hne⟩ := body?_eq_some hb
  rw [trim_parenthesized] at htrim
  obtain rfl := List.append_cancel_left (List.append_cancel_right htrim)
  rw [h] at hne
  cases hne

/-- Changes of the white space do not change the calculation. -/
theorem Respaced.ofText?_eq (h : Respaced t t') : ofText? t = ofText? t' := by
  cases h with
  | @body b b' h =>
    cases hblank : Text.isBlankText b with
    | false =>
      have hblank' := Text.isBlankText_eq_of_words h.words_eq hblank
      rw [ofText?_parenthesized hblank, ofText?_parenthesized hblank', h.words_eq]
    | true =>
      have hblank' : Text.isBlankText b' = true := by
        rw [← Bool.not_eq_false]
        intro hfalse
        rw [Text.isBlankText_eq_of_words h.words_eq.symm hfalse] at hblank
        cases hblank
      rw [ofText?_parenthesized_blank hblank, ofText?_parenthesized_blank hblank']
  | around v w v' w' t =>
    unfold ofText? body? Text.trim
    rw [Text.trimWhere_append v.property w.property, Text.trimWhere_append v'.property w'.property]

theorem ofText?_eq_of_reflTransGen (h : ReflTransGen Respaced t t') : ofText? t = ofText? t' := by
  induction h with
  | refl => rfl
  | tail _ hstep ih => exact ih.trans hstep.ofText?_eq

/-! ## The calculation that is kept -/

theorem isValid_iff : isValid t = true ↔ ∃ s, ofText? t = some s := by
  rw [isValid, ofText?, ← Option.isSome_iff_exists, Option.isSome_map]

theorem exists_body (h : ofText? t = some s) : ∃ body, t.trim = opening ++ body ++ [')']
    ∧ Text.isBlankText body = false ∧ s.content = Text.join [' '] body.words := by
  obtain ⟨body, hbody, rfl⟩ := Option.map_eq_some_iff.mp h
  obtain ⟨ht, hne⟩ := body?_eq_some hbody
  exact ⟨body, ht, hne, rfl⟩

/-- A text can be brought to the calculation that it holds. -/
theorem reflTransGen_css (h : ofText? t = some s) : ReflTransGen Respaced t s.css := by
  obtain ⟨body, htrim, -, hcontent⟩ := exists_body h
  obtain ⟨v, w, ht, hv, hw⟩ := Text.exists_trimWhere Text.isBlank t
  have houter := Respaced.around ⟨v, hv⟩ ⟨w, hw⟩ .none .none t.trim
  rw [show v ++ t.trim ++ w = t from ht.symm, htrim, Text.Blanks.none, List.append_nil,
    List.nil_append] at houter
  have hinner := (Text.reflTransGen_join_words body).lift (p := Respaced) (opening ++ · ++ [')'])
    fun _ _ => .body
  rw [css, hcontent]
  exact .head houter hinner

theorem ofText?_css (h : ofText? t = some s) : ofText? s.css = some s :=
  (ofText?_eq_of_reflTransGen (reflTransGen_css h)).symm.trans h

theorem read_of_ofText? (h : ofText? t = some s) :
    CalcExpression.read t = CalcExpression.ofSource s := by
  unfold CalcExpression.read
  rw [h]

/-- **Canonical form.** The calculation that a text holds is one of normal white space, and is found
again in its own text; the three read alike. A text holds the same calculation just if changes of the
white space lead to it, inside the parentheses and around the whole. -/
theorem canonical (h : isValid t = true) : ∃ s, ofText? t = some s
    ∧ isValid s.css = true ∧ ofText? s.css = some s
    ∧ CalcExpression.read t = CalcExpression.ofSource s
    ∧ CalcExpression.read s.css = CalcExpression.ofSource s
    ∧ s.content ≠ [] ∧ s.content.IsNormal
    ∧ ∀ t', ReflTransGen Respaced t t' ↔ ofText? t' = some s := by
  obtain ⟨s, hs⟩ := isValid_iff.mp h
  have hcss := ofText?_css hs
  obtain ⟨body, -, hblank, hcontent⟩ := exists_body hs
  have hne : body.words ≠ [] := fun hnone =>
    absurd (Text.isBlankText_eq_of_words (t := []) hnone hblank) (by decide)
  refine ⟨s, hs, isValid_iff.mpr ⟨s, hcss⟩, hcss, read_of_ofText? hs, read_of_ofText? hcss, ?_, ?_, ?_⟩
  · rw [hcontent]
    exact Text.join_ne_nil hne fun _ => Text.isWord_of_mem_words
  · rw [hcontent]
    exact Text.isNormal_join_words body
  · intro t'
    constructor
    · intro hchange
      exact (ofText?_eq_of_reflTransGen hchange).symm.trans hs
    · intro hs'
      exact (reflTransGen_css hs).trans (symm (reflTransGen_css hs'))

/-- A body that starts like a calculation itself, with blanks of four kinds. -/
theorem canonical_nested :
    isValid ['\u2003', 'c', 'a', 'l', 'c', '(', 'c', 'a', 'l', 'c', '(', '\t', '1', '\u001c', ' ',
        '+', '2', ')', '\n', ')'] = true
      ∧ ∃ s : CalcSource, s.content = ['c', 'a', 'l', 'c', '(', ' ', '1', ' ', '+', '2', ')']
        ∧ s.content.IsNormal ∧ ofText? s.css = some s
        ∧ ReflTransGen Respaced ['\u2003', 'c', 'a', 'l', 'c', '(', 'c', 'a', 'l', 'c', '(', '\t', '1',
          '\u001c', ' ', '+', '2', ')', '\n', ')'] s.css := by
  have hvalid : isValid ['\u2003', 'c', 'a', 'l', 'c', '(', 'c', 'a', 'l', 'c', '(', '\t', '1',
      '\u001c', ' ', '+', '2', ')', '\n', ')'] = true := rfl
  obtain ⟨s, hs, -, hcss, -, -, -, hnormal, hiff⟩ := canonical hvalid
  obtain rfl := Option.some.inj (hs.symm.trans (b := _) rfl)
  exact ⟨hvalid, _, rfl, hnormal, hcss, (hiff _).mpr hcss⟩

end CalcSource

end CssValues
