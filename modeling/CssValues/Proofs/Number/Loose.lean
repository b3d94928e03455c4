import CssValues.Proofs.Quantity

/-!
# Texts that read as a double

A text without blanks around it reads as a double if it is a number literal with a sign or without
one, and also if it is one but for underscores between digits, or the name of an infinity or of NaN
(`IsLoose`). Main result: `Binary64.exists_read?_iff`.
-/

namespace CssValues

/-! ## Only literals are decimal numbers -/

theorem exists_of_readExponent? {t : Text} {n : Int} (h : readExponent? t = some n) :
    ∃ x : Option Exponent, x.elim [] Exponent.text = t := by
  cases t with
  | nil => exact ⟨none, rfl⟩
  | cons c rest =>
    unfold readExponent? at h
    dsimp only at h
    split at h
    · next hwhole =>
      simp only [Bool.and_eq_true, Bool.not_eq_true', List.isEmpty_eq_false_iff] at hwhole
      obtain ⟨⟨hmark, hne⟩, hdigits⟩ := hwhole
      obtain ⟨s, hs⟩ := Literal.exists_of_splitSign rest
      refine ⟨some ⟨c, s, (splitSign rest).2, hmark, hne, List.all_eq_true.mp hdigits⟩, ?_⟩
      show c :: s.text ++ (splitSign rest).2 = c :: rest
      rw [List.cons_append, hs, splitSign_append]
    · cases h

/-- What reads as a decimal number has the parts of a literal. -/
theorem exists_of_readDecimal? {negative : Bool} {t : Text} {d : Decimal}
    (h : readDecimal? negative t = some d) : ∃ l : Literal, l.text = t := by
  have hparts : ∃ m tail n, splitMantissa? t = some (m, tail) ∧ readExponent? tail = some n := by
    unfold readDecimal? at h
    unfold splitMantissa?
    dsimp only at h ⊢
    split at h
    · split at h
      · cases h
      · next hdigits =>
        obtain ⟨n, hn, -⟩ := Option.map_eq_some_iff.mp h
        rw [if_neg hdigits]
        exact ⟨_, _, n, rfl, hn⟩
    · split at h
      · cases h
      · next hdigits =>
        obtain ⟨n, hn, -⟩ := Option.map_eq_some_iff.mp h
        rw [List.isEmpty_nil, Bool.and_true] at hdigits
        rw [if_neg hdigits]
        exact ⟨_, _, n, rfl, hn⟩
  obtain ⟨m, tail, n, hm, hn⟩ := hparts
  obtain ⟨l, -, rfl, ht⟩ := Literal.exists_of_splitMantissa? hm
  obtain ⟨x, hx⟩ := exists_of_readExponent? hn
  refine ⟨⟨l.whole, l.fraction, x, l.ne_nil, l.isDigit⟩, ?_⟩
  rw [ht, ← hx]
  rfl

/-! ## Underscores -/

variable {t u : Text} {afterDigit : Bool}

/-- An underscore is left out only between two digits. -/
theorem dropUnderscores?_cons {c : Char} (h : dropUnderscores? afterDigit (c :: t) = some u) :
    (c = '_' ∧ ∃ d rest, t = d :: rest ∧ Text.isDigit d = true ∧ dropUnderscores? false t = some u)
      ∨ c ≠ '_' ∧ ∃ v, u = c :: v ∧ dropUnderscores? (Text.isDigit c) t = some v := by
  rw [dropUnderscores?.eq_def] at h
  dsimp only at h
  split at h
  · next hc =>
    split at h
    · cases h
    · next d rest =>
      split at h
      · next hdigit =>
        exact .inl ⟨hc, d, rest, rfl, (Bool.and_eq_true_iff.mp hdigit).2, h⟩
      · cases h
  · next hc =>
    obtain ⟨v, hv, rfl⟩ := Option.map_eq_some_iff.mp h
    exact .inr ⟨hc, v, rfl, hv⟩

/-- Nothing but underscores is left out. -/
theorem mem_of_dropUnderscores? (h : dropUnderscores? afterDigit t = some u) {c : Char} (hc : c ∈ t)
    (hne : c ≠ '_') : c ∈ u := by
  induction t generalizing afterDigit u with
  | nil => cases hc
  | cons d t ih =>
    rcases dropUnderscores?_cons h with ⟨rfl, -, -, -, -, hrest⟩ | ⟨-, v, rfl, hrest⟩
    · exact ih hrest ((List.mem_cons.mp hc).resolve_left hne)
    · rcases List.mem_cons.mp hc with rfl | hc
      · exact List.mem_cons_self
      · exact List.mem_cons_of_mem _ (ih hrest hc)

/-- Underscores stand between digits only, so what has no digit has none of them. -/
theorem eq_of_dropUnderscores? (h : dropUnderscores? afterDigit t = some u)
    (hu : ∀ c ∈ u, Text.isDigit c = false) : t = u := by
  induction t generalizing afterDigit u with
  | nil => cases h; rfl
  | cons c t ih =>
    rcases dropUnderscores?_cons h with ⟨-, d, rest, rfl, hd, hrest⟩ | ⟨-, v, rfl, hrest⟩
    · have hne : d ≠ '_' := by rintro rfl; exact absurd hd (by decide)
      rw [hu d (mem_of_dropUnderscores? hrest List.mem_cons_self hne)] at hd
      cases hd
    · rw [ih hrest fun d hd => hu d (List.mem_cons_of_mem _ hd)]

/-! ## Words -/

/-- The words that read as a double, in small letters. -/
def doubleWords : List Text := ["inf".toList, "infinity".toList, "nan".toList]

/-- The name of an infinity or of NaN, in any case. -/
def IsDoubleWord (t : Text) : Prop := Text.asciiLower t ∈ doubleWords

theorem exists_readUnsigned?_iff {negative : Bool} :
    (∃ x, Binary64.readUnsigned? negative t = some x) ↔ IsDoubleWord t ∨ ∃ l : Literal, l.text = t := by
  constructor
  · rintro ⟨x, h⟩
    unfold Binary64.readUnsigned? at h
    dsimp only at h
    split at h
    · next hword =>
      left
      simp only [Bool.or_eq_true, decide_eq_true_eq] at hword
      rcases hword with hword | hword <;> simp [IsDoubleWord, doubleWords, hword]
    · split at h
      · next hword => exact .inl (by simp [IsDoubleWord, doubleWords, hword])
      · obtain ⟨d, hd, -⟩ := Option.map_eq_some_iff.mp h
        exact .inr (exists_of_readDecimal? hd)
  · rintro (hword | ⟨l, rfl⟩)
    · unfold IsDoubleWord doubleWords at hword
      simp only [List.mem_cons, List.not_mem_nil, or_false] at hword
      unfold Binary64.readUnsigned?
      rcases hword with hword | hword | hword
      · exact ⟨_, by rw [hword]; rfl⟩
      · exact ⟨_, by rw [hword]; rfl⟩
      · exact ⟨_, by rw [hword]; rfl⟩
    · exact ⟨_, l.readUnsigned?_text negative⟩

theorem IsDoubleWord.isLetter (h : IsDoubleWord t) : ∀ c ∈ t, Text.isLetter c = true := by
  have hletters : ∀ w ∈ doubleWords, ∀ d ∈ w, Text.isLetter d = true := by decide
  exact fun c hc => Text.isLetter_of_toLower (hletters _ h _ (List.mem_map_of_mem hc))

theorem IsDoubleWord.exists_cons (h : IsDoubleWord t) :
    ∃ c rest, t = c :: rest ∧ Text.isLetter c = true := by
  cases t with
  | nil =>
    have hempty : Text.asciiLower [] ∉ doubleWords := by decide
    exact absurd h hempty
  | cons c rest => exact ⟨c, rest, rfl, h.isLetter c List.mem_cons_self⟩

/-! ## Whole texts -/

/-- The text is a literal with a sign or without one but for underscores between digits, or the name
of an infinity or of NaN with a sign or without one. -/
def IsLoose (t : Text) : Prop :=
  ('_' ∈ t ∧ ∃ (s : Sign) (l : Literal), dropUnderscores? false t = some (s.text ++ l.text))
    ∨ ∃ (s : Sign) (w : Text), t = s.text ++ w ∧ IsDoubleWord w

namespace Sign

variable {s : Sign} {w : Text}

theorem splitSign_word (s : Sign) (h : IsDoubleWord w) : splitSign (s.text ++ w) = (s.text, w) := by
  obtain ⟨c, rest, rfl, hletter⟩ := h.exists_cons
  obtain ⟨-, hplus, hminus, -⟩ := Text.of_isLetter hletter
  exact s.splitSign_text ⟨hplus, hminus⟩ rest

/-- A word has no digits and no underscores. -/
theorem isDigit_of_mem_word (h : IsDoubleWord w) {c : Char} (hc : c ∈ s.text ++ w) :
    Text.isDigit c = false ∧ c ≠ '_' := by
  rcases List.mem_append.mp hc with hsign | hword
  · rcases Literal.mem_sign_text hsign with rfl | rfl <;> decide
  · have hletter := h.isLetter c hword
    refine ⟨(Text.of_isLetter hletter).1, ?_⟩
    rintro rfl
    exact absurd hletter (by decide)

end Sign

namespace Binary64

/-- A text without blanks around it is read without its underscores. -/
theorem read?_of_trim (ht : t.trim = t) : read? t = (dropUnderscores? false t).bind fun body =>
    readUnsigned? (decide ((splitSign body).1 = ['-'])) (splitSign body).2 := by
  have hends {c : Char} (h : Text.isBlank c = false) : Text.isWhiteSpace c = false :=
    (Bool.or_eq_false_iff.mp h).1
  have htrim : Text.trimWhere Text.isWhiteSpace t = t :=
    Text.trimWhere_of_ends
      (fun c hc => hends (Text.head?_trimWhere (t := t) c (by rwa [← Text.trim, ht])))
      (fun c hc => hends (Text.getLast?_trimWhere (t := t) c (by rwa [← Text.trim, ht])))
  rw [read?, htrim]

theorem exists_read?_iff (ht : t.trim = t) : (∃ x, read? t = some x)
    ↔ (∃ (s : Sign) (l : Literal), t = s.text ++ l.text) ∨ IsLoose t := by
  constructor
  · rintro ⟨x, hx⟩
    rw [read?_of_trim ht] at hx
    obtain ⟨body, hbody, hx⟩ := Option.bind_eq_some_iff.mp hx
    obtain ⟨s, hs⟩ := Literal.exists_of_splitSign body
    have hparts : s.text ++ (splitSign body).2 = body := by rw [hs, splitSign_append]
    rcases exists_readUnsigned?_iff.mp ⟨x, hx⟩ with hword | ⟨l, hl⟩
    · refine .inr (.inr ⟨s, (splitSign body).2, ?_, hword⟩)
      rw [hparts]
      exact eq_of_dropUnderscores? hbody fun c hc =>
        (Sign.isDigit_of_mem_word hword (hparts ▸ hc)).1
    · rw [← hl] at hparts
      by_cases hmem : '_' ∈ t
      · exact .inr (.inl ⟨hmem, s, l, hparts ▸ hbody⟩)
      · rw [dropUnderscores?_of_none hmem] at hbody
        exact .inl ⟨s, l, (Option.some.inj hbody).trans hparts.symm⟩
  · rintro (⟨s, l, rfl⟩ | ⟨-, s, l, hbody⟩ | ⟨s, w, rfl, hword⟩)
    · exact ⟨_, l.read?_text s⟩
    · have hsign := l.splitSign_text s []
      rw [List.append_nil] at hsign
      rw [read?_of_trim ht, hbody, Option.bind_some, hsign]
      exact ⟨_, l.readUnsigned?_text _⟩
    · have hnone : '_' ∉ s.text ++ w := fun hmem => (Sign.isDigit_of_mem_word hword hmem).2 rfl
      rw [read?_of_trim ht, dropUnderscores?_of_none hnone, Option.bind_some, s.splitSign_word hword]
      exact exists_readUnsigned?_iff.mpr (.inl hword)

/-- What reads as a double has no percent sign. -/
theorem percent_notMem_of_read? {x : Binary64} (ht : t.trim = t) (h : read? t = some x) :
    '%' ∉ t := by
  intro hmem
  have hbody {s : Sign} {u : Text} (hu : ∀ c ∈ u, c ≠ '%') : '%' ∉ s.text ++ u := by
    intro hmem
    rcases List.mem_append.mp hmem with hsign | hu'
    · rcases Literal.mem_sign_text hsign with h | h <;> exact absurd h (by decide)
    · exact hu _ hu' rfl
  have hliteral (l : Literal) : ∀ c ∈ l.text, c ≠ '%' := by
    rintro c hc rfl
    rcases l.mem_text hc with hdigit | hmark
    · exact absurd hdigit (by decide)
    · exact absurd hmark (by decide)
  rcases (exists_read?_iff ht).mp ⟨x, h⟩ with ⟨s, l, rfl⟩ | ⟨-, s, l, hdrop⟩ | ⟨s, w, rfl, hword⟩
  · exact hbody (hliteral l) hmem
  · exact hbody (hliteral l) (mem_of_dropUnderscores? hdrop hmem (by decide))
  · refine hbody (fun c hc => ?_) hmem
    exact (Text.of_isLetter (hword.isLetter c hc)).2.2.2.2

end Binary64

end CssValues
