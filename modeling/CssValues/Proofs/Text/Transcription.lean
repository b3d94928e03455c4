import CssValues.Proofs.Number.Literal
import CssValues.Proofs.Text.Lowercase
import CssValues.Proofs.Text.Trim

/-!
# Transcriptions

A transcription replaces characters by others that readers of values take for the same: digits of other
scripts, blanks, letters in the other case (`Text.IsTranscription`). Taking a text apart and transcribing
the parts comes to the same as transcribing it first, and numbers stay what they are
(`Binary64.readFinite?_map`).
-/

namespace CssValues

namespace Text

/-- What readers of values look for besides letters, digits and blanks. -/
def marks : Text := ['+', '-', '.', '%', '_', ',', '(', ')', '\n']

/-- A map of characters that keeps what a reader looks at: the values of digits, what is blank, letters
up to their case, and marks. -/
structure IsTranscription (f : Char → Char) : Prop where
  digit : ∀ c, digitValue? (f c) = digitValue? c
  blank : ∀ c, isBlank (f c) = isBlank c
  white : ∀ c, isWhiteSpace (f c) = isWhiteSpace c
  letter : ∀ c, isLetter (f c) = isLetter c
  fold : ∀ c, isLetter c = true → (f c).toLower = c.toLower
  space : f ' ' = ' '
  mark : ∀ c, ∀ d ∈ marks, f c = d ↔ c = d

section

variable {f : Char → Char} {p : Char → Bool}

theorem takeWhile_map (h : ∀ c, p (f c) = p c) (t : Text) :
    (t.map f).takeWhile p = (t.takeWhile p).map f := by
  rw [List.takeWhile_map, show p ∘ f = p from funext h]

theorem dropWhile_map (h : ∀ c, p (f c) = p c) (t : Text) :
    (t.map f).dropWhile p = (t.dropWhile p).map f := by
  rw [List.dropWhile_map, show p ∘ f = p from funext h]

theorem all_map (h : ∀ c, p (f c) = p c) (t : Text) : (t.map f).all p = t.all p := by
  rw [List.all_map, show p ∘ f = p from funext h]

theorem trimWhere_map (h : ∀ c, p (f c) = p c) (t : Text) :
    trimWhere p (t.map f) = (trimWhere p t).map f := by
  simp only [trimWhere, dropWhile_map h, ← List.map_reverse]

theorem splitWhere_map (h : ∀ c, p (f c) = p c) (t : Text) :
    splitWhere p (t.map f) = (splitWhere p t).map (List.map f) := by
  induction t with
  | nil => rfl
  | cons c t ih =>
    rw [List.map_cons, splitWhere, splitWhere, h, ih]
    split
    · rfl
    · cases splitWhere p t <;> rfl

theorem join_map (f : Char → Char) (separator : Text) (texts : List Text) :
    (join separator texts).map f = join (separator.map f) (texts.map (List.map f)) := by
  induction texts with
  | nil => rfl
  | cons t rest ih =>
    cases rest with
    | nil => rfl
    | cons u rest =>
      rw [join, List.map_append, List.map_append, ih]
      rfl

theorem isSuffixOf_singleton {d : Char} {t : Text} :
    [d].isSuffixOf t = true ↔ t.getLast? = some d := by
  rw [List.isSuffixOf_iff_suffix, List.getLast?_eq_some_iff]
  exact ⟨fun ⟨s, hs⟩ => ⟨s, hs.symm⟩, fun ⟨s, hs⟩ => ⟨s, hs.symm⟩⟩

end

/-- Only letters are letters in lower case. -/
theorem toLower_eq_self {c : Char} (h : isLetter c = false) : c.toLower = c := by
  rcases toLower_cases c with heq | ⟨hlow, hhigh, -⟩
  · exact heq
  · rw [← Bool.not_eq_true, isLetter_iff] at h
    omega

namespace IsTranscription

variable {f : Char → Char} (hf : IsTranscription f)

include hf

theorem isDigit (c : Char) : isDigit (f c) = isDigit c := by rw [Text.isDigit, hf.digit, Text.isDigit]

theorem trim_map (t : Text) : trim (t.map f) = t.trim.map f := trimWhere_map hf.blank t

theorem isBlankText_map (t : Text) : isBlankText (t.map f) = isBlankText t := all_map hf.blank t

theorem words_map (t : Text) : words (t.map f) = t.words.map (List.map f) := by
  rw [words, splitWhere_map hf.blank, List.filter_map, words]
  congr 2
  funext w
  cases w <;> rfl

theorem isSuffixOf_map {d : Char} (hd : d ∈ marks) (t : Text) :
    [d].isSuffixOf (t.map f) = [d].isSuffixOf t := by
  rw [Bool.eq_iff_iff, isSuffixOf_singleton, isSuffixOf_singleton, List.getLast?_map]
  cases t.getLast? with
  | none => exact iff_of_false nofun nofun
  | some c => simp only [Option.map_some, Option.some.injEq, hf.mark c d hd]

/-- A letter in lower case is that of the same letters as before. -/
theorem toLower_eq_iff {c d : Char} (hd : isLetter d = true) :
    (f c).toLower = d ↔ c.toLower = d := by
  cases hc : isLetter c with
  | true => rw [hf.fold c hc]
  | false =>
    refine iff_of_false (fun h => ?_) fun h => ?_
    · rw [toLower_eq_self ((hf.letter c).trans hc)] at h
      rw [← h, hf.letter, hc] at hd
      cases hd
    · rw [toLower_eq_self hc] at h
      rw [← h, hc] at hd
      cases hd

/-- A mark in lower case is that mark. -/
theorem toLower_eq_mark_iff {c d : Char} (hd : d ∈ marks) : (f c).toLower = d ↔ c.toLower = d := by
  have hsmall : ∀ d ∈ marks, d.toNat < 0x61 ∧ d.toLower = d := by decide
  have hmark : ∀ c : Char, c.toLower = d ↔ c = d := fun c =>
    ⟨fun h => eq_of_toLower_eq h (hsmall d hd).1, fun h => h ▸ (hsmall d hd).2⟩
  rw [hmark, hmark, hf.mark c d hd]

/-- Words of letters and marks are told as before. -/
theorem asciiLower_eq_iff {w : Text} (hw : ∀ d ∈ w, isLetter d = true ∨ d ∈ marks) (t : Text) :
    asciiLower (t.map f) = w ↔ asciiLower t = w := by
  induction t generalizing w with
  | nil => rfl
  | cons c t ih =>
    cases w with
    | nil => exact iff_of_false nofun nofun
    | cons d w =>
      obtain ⟨hd, hrest⟩ := List.forall_mem_cons.mp hw
      have hfirst : (f c).toLower = d ↔ c.toLower = d :=
        hd.elim hf.toLower_eq_iff hf.toLower_eq_mark_iff
      have htail : (t.map f).map Char.toLower = w ↔ t.map Char.toLower = w := ih hrest
      simp only [asciiLower, List.map_cons, List.cons.injEq, hfirst, htail]

theorem isExponentMark (c : Char) : isExponentMark (f c) = isExponentMark c := by
  have hmark : ∀ c : Char, CssValues.isExponentMark c = true ↔ c.toLower = 'e' := by
    intro c
    simp only [CssValues.isExponentMark, Bool.or_eq_true, beq_iff_eq]
    constructor
    · rintro (rfl | rfl) <;> rfl
    · intro h
      rcases toLower_cases c with heq | ⟨-, -, hcode⟩
      · exact .inl (heq ▸ h)
      · rw [h] at hcode
        have hcapital : 'e'.toNat = 'E'.toNat + 32 := by decide
        exact .inr (Char.toNat_inj.mp (by omega))
  rw [Bool.eq_iff_iff, hmark, hmark]
  exact hf.toLower_eq_iff (by decide)

theorem ofDigits_map (t : Text) : ofDigits (t.map f) = ofDigits t := by
  rw [ofDigits, List.foldl_map, ofDigits]
  congr 1
  funext n c
  rw [hf.digit]

end IsTranscription

end Text

/-! ## Numbers -/

/-- A number with something else than a point behind its first digits. -/
theorem readDecimal?_of_no_point {t rest : Text} {c : Char}
    (hrest : t.dropWhile Text.isDigit = c :: rest) (hdot : c ≠ '.') (negative : Bool) :
    readDecimal? negative t =
      if (t.takeWhile Text.isDigit).isEmpty then none
      else (readExponent? (c :: rest)).map fun e =>
        ⟨negative, Text.ofDigits (t.takeWhile Text.isDigit), e⟩ := by
  unfold readDecimal?
  rw [hrest]
  dsimp only
  split
  · next heq => exact absurd (List.cons.inj heq).1 hdot
  · simp only [List.isEmpty_nil, Bool.and_true, List.append_nil, List.length_nil, Nat.cast_zero,
      sub_zero]

namespace Text

/-- The two parts of a text transcribed. -/
def mapBoth (f : Char → Char) (parts : Text × Text) : Text × Text := (parts.1.map f, parts.2.map f)

namespace IsTranscription

variable {f : Char → Char} (hf : IsTranscription f)

include hf

theorem apply_mark {d : Char} (hd : d ∈ marks) : f d = d := (hf.mark d d hd).mpr rfl

theorem splitSign_map (t : Text) : splitSign (t.map f) = mapBoth f (splitSign t) := by
  cases t with
  | nil => rfl
  | cons c t =>
    by_cases hplus : c = '+'
    · rw [hplus, List.map_cons, hf.apply_mark (by decide)]
      simp only [splitSign, mapBoth, List.map_cons, List.map_nil, hf.apply_mark (d := '+') (by decide)]
    by_cases hminus : c = '-'
    · rw [hminus, List.map_cons, hf.apply_mark (by decide)]
      simp only [splitSign, mapBoth, List.map_cons, List.map_nil, hf.apply_mark (d := '-') (by decide)]
    rw [List.map_cons, splitSign_of_ne hplus hminus,
      splitSign_of_ne (mt (hf.mark c '+' (by decide)).mp hplus)
        (mt (hf.mark c '-' (by decide)).mp hminus)]
    rfl

/-- The sign that is told apart. -/
theorem splitSign_map_fst (t : Text) : (splitSign (t.map f)).1 = (splitSign t).1 := by
  rw [hf.splitSign_map, mapBoth]
  unfold splitSign
  split
  · exact congrArg (fun c => [c]) (hf.apply_mark (by decide))
  · exact congrArg (fun c => [c]) (hf.apply_mark (by decide))
  · rfl

theorem splitMantissa?_map (t : Text) :
    splitMantissa? (t.map f) = (splitMantissa? t).map (mapBoth f) := by
  unfold splitMantissa?
  rw [takeWhile_map hf.isDigit, dropWhile_map hf.isDigit]
  cases hrest : t.dropWhile Text.isDigit with
  | nil =>
    simp only [List.map_nil, List.isEmpty_map]
    split <;> rfl
  | cons c rest =>
    by_cases hdot : c = '.'
    · subst hdot
      simp only [List.map_cons, hf.apply_mark (d := '.') (by decide), takeWhile_map hf.isDigit,
        dropWhile_map hf.isDigit, List.isEmpty_map]
      split
      · rfl
      · simp only [Option.map_some, mapBoth, List.map_append, List.map_cons,
          hf.apply_mark (d := '.') (by decide)]
    · have hdot' : f c ≠ '.' := mt (hf.mark c '.' (by decide)).mp hdot
      rw [List.map_cons]
      split
      · next heq => exact absurd (List.cons.inj heq).1 hdot'
      · split
        · next heq => exact absurd (List.cons.inj heq).1 hdot
        · simp only [List.isEmpty_map]
          split <;> rfl

theorem splitExponent_map {p : Char → Bool} (hp : ∀ c, p (f c) = p c) (t : Text) :
    splitExponent p (t.map f) = mapBoth f (splitExponent p t) := by
  cases t with
  | nil => rfl
  | cons c t =>
    simp only [List.map_cons, splitExponent, hf.splitSign_map, mapBoth, takeWhile_map hp,
      dropWhile_map hp, hf.isExponentMark, List.isEmpty_map]
    split
    · simp only [List.map_append, List.map_cons]
    · rfl

theorem splitNumber?_map (t : Text) :
    splitNumber? (t.map f) = (splitNumber? t).map (mapBoth f) := by
  have hunsigned : ∀ t : Text, splitUnsigned? (t.map f) = (splitUnsigned? t).map (mapBoth f) := by
    intro t
    unfold splitUnsigned?
    rw [hf.splitMantissa?_map]
    cases splitMantissa? t with
    | none => rfl
    | some parts =>
      simp only [Option.map_some, mapBoth, hf.splitExponent_map hf.isDigit, List.map_append]
  unfold splitNumber?
  simp only [hf.splitSign_map, mapBoth, hunsigned]
  cases splitUnsigned? (splitSign t).2 with
  | none => rfl
  | some parts => simp only [Option.map_some, mapBoth, List.map_append]

/-! ### Their values -/

theorem dropUnderscores?_map (afterDigit : Bool) (t : Text) :
    dropUnderscores? afterDigit (t.map f) = (dropUnderscores? afterDigit t).map (List.map f) := by
  induction t generalizing afterDigit with
  | nil => rfl
  | cons c t ih =>
    rw [List.map_cons, dropUnderscores?.eq_def, dropUnderscores?.eq_def]
    simp only [hf.mark c '_' (by decide), hf.isDigit]
    split
    · cases t with
      | nil => rfl
      | cons d t =>
        simp only [List.map_cons, hf.isDigit]
        split
        · exact ih false
        · rfl
    · rw [ih, Option.map_map, Option.map_map]
      rfl

theorem readExponent?_map (t : Text) : readExponent? (t.map f) = readExponent? t := by
  cases t with
  | nil => rfl
  | cons c t =>
    have hsign := hf.splitSign_map_fst t
    have hdigits : (splitSign (t.map f)).2 = (splitSign t).2.map f := by rw [hf.splitSign_map, mapBoth]
    simp only [List.map_cons, readExponent?, hsign, hdigits, hf.isExponentMark, List.isEmpty_map,
      all_map hf.isDigit, hf.ofDigits_map]

theorem readDecimal?_map (negative : Bool) (t : Text) :
    readDecimal? negative (t.map f) = readDecimal? negative t := by
  have hwhole := takeWhile_map hf.isDigit t
  have hrest := dropWhile_map hf.isDigit t
  cases htail : t.dropWhile Text.isDigit with
  | nil =>
    rw [htail, List.map_nil] at hrest
    simp only [readDecimal?, hwhole, hrest, htail, List.append_nil, List.isEmpty_map, hf.ofDigits_map]
  | cons c tail =>
    rw [htail, List.map_cons] at hrest
    by_cases hdot : c = '.'
    · subst hdot
      rw [hf.apply_mark (by decide)] at hrest
      simp only [readDecimal?, hwhole, hrest, htail, takeWhile_map hf.isDigit,
        dropWhile_map hf.isDigit, List.isEmpty_map, ← List.map_append, hf.ofDigits_map,
        hf.readExponent?_map, List.length_map]
    · have hdot' : f c ≠ '.' := mt (hf.mark c '.' (by decide)).mp hdot
      rw [readDecimal?_of_no_point hrest hdot', readDecimal?_of_no_point htail hdot, hwhole,
        ← List.map_cons, List.isEmpty_map, hf.ofDigits_map, hf.readExponent?_map]

theorem readUnsigned?_map (negative : Bool) (t : Text) :
    Binary64.readUnsigned? negative (t.map f) = Binary64.readUnsigned? negative t := by
  have hinf := hf.asciiLower_eq_iff (w := "inf".toList) (by decide) t
  have hinfinity := hf.asciiLower_eq_iff (w := "infinity".toList) (by decide) t
  have hnan := hf.asciiLower_eq_iff (w := "nan".toList) (by decide) t
  simp only [Binary64.readUnsigned?, hinf, hinfinity, hnan, hf.readDecimal?_map]

/-- **Numbers** stay what they are. -/
theorem read?_map (t : Text) : Binary64.read? (t.map f) = Binary64.read? t := by
  unfold Binary64.read?
  rw [trimWhere_map hf.white, hf.dropUnderscores?_map]
  cases dropUnderscores? false (trimWhere isWhiteSpace t) with
  | none => rfl
  | some body =>
    have hdigits : (splitSign (body.map f)).2 = (splitSign body).2.map f := by
      rw [hf.splitSign_map, mapBoth]
    simp only [Option.map_some, Option.bind_some, hf.splitSign_map_fst, hdigits,
      hf.readUnsigned?_map]

theorem readFinite?_map (t : Text) : Binary64.readFinite? (t.map f) = Binary64.readFinite? t := by
  rw [Binary64.readFinite?, Binary64.readFinite?, hf.read?_map]

end IsTranscription

end Text

end CssValues
