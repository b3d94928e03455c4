import CssValues.Proofs.Token.Scan

/-!
# Texts that a semicolon ends

A reader either stops before a semicolon, and then it never looks behind it, or it takes the
semicolon in, and then it goes on to the end of the text if nothing is behind. So a text that a
semicolon ends is scanned by itself, whatever follows (`Token.IsClosed.scanAll_append`).
-/

namespace CssValues.Token

variable {α : Type}

theorem endsToken_semicolon (rest : Text) : EndsToken (';' :: rest) :=
  fun _ hc => .inr (.inr (Option.some.inj hc).symm)

/-- A reader stops before a semicolon behind the text, if not before that. -/
def Stops (f : Text → α × Text) (t : Text) : Prop :=
  ∀ rest, f (t ++ ';' :: rest) = ((f t).1, (f t).2 ++ ';' :: rest)

/-- A reader stops before a semicolon behind the text, or takes it in if nothing follows. -/
def StopsOrTakes (f : Text → α × Text) (t : Text) : Prop :=
  Stops f t ∨ (f (t ++ [';'])).2 = []

theorem Stops.orTakes {f : Text → α × Text} {t : Text} (h : Stops f t) : StopsOrTakes f t := .inl h

/-- A reader that goes on like another one behind some of the text stops like it. -/
theorem StopsOrTakes.map {β : Type} {f : Text → β × Text} {g : Text → α × Text} {t u : Text}
    (h : StopsOrTakes g u) (m : α → β)
    (hmore : ∀ rest, f (t ++ ';' :: rest) = (m (g (u ++ ';' :: rest)).1, (g (u ++ ';' :: rest)).2))
    (hend : f t = (m (g u).1, (g u).2)) : StopsOrTakes f t := by
  rcases h with h | h
  · refine .inl fun rest => ?_
    rw [hmore, hend, h rest]
  · refine .inr ?_
    rw [hmore, h]

/-- Two readers one after the other, of which the second reads nothing at the end of the text. -/
theorem StopsOrTakes.bind {β : Type} {f : Text → α × Text} {g : α → Text → β × Text} {t : Text}
    (hf : StopsOrTakes f t) (hg : StopsOrTakes (g (f t).1) (f t).2)
    (hend : ∀ a, (g a []).2 = []) : StopsOrTakes (fun t => g (f t).1 (f t).2) t := by
  rcases hf with hf | hf
  · refine hg.map id (fun rest => ?_) rfl
    rw [hf rest]
    rfl
  · refine .inr ?_
    dsimp only
    rw [hf, hend]

/-- A choice between readers that a semicolon behind the text does not change. -/
theorem StopsOrTakes.ite {p : Text → Prop} [DecidablePred p] {f g : Text → α × Text} {t : Text}
    (hp : ∀ rest, p (t ++ ';' :: rest) ↔ p t) (hf : p t → StopsOrTakes f t)
    (hg : ¬p t → StopsOrTakes g t) : StopsOrTakes (fun t => if p t then f t else g t) t := by
  by_cases h : p t
  · exact (hf h).map id (fun rest => if_pos ((hp rest).mpr h)) (if_pos h)
  · exact (hg h).map id (fun rest => if_neg (mt (hp rest).mp h)) (if_neg h)

/-! ## Escapes -/

theorem dropSpace_semicolon (t rest : Text) :
    dropSpace (t ++ ';' :: rest) = dropSpace t ++ ';' :: rest := by
  cases t with
  | nil => rfl
  | cons c t =>
    by_cases h : isSpace c = true <;> simp [dropSpace, h]

theorem takeWhile_take_semicolon {p : Char → Bool} (hp : p ';' = false) (n : Nat) (t rest : Text) :
    ((t ++ ';' :: rest).take n).takeWhile p = (t.take n).takeWhile p := by
  rw [List.take_append]
  refine Text.takeWhile_append_end fun c hc => ?_
  cases hk : n - t.length with
  | zero =>
    rw [hk] at hc
    cases hc
  | succ k =>
    rw [hk] at hc
    exact Option.some.inj hc ▸ hp

/-- Behind some characters of a kind the text goes on. -/
theorem drop_takeWhile_semicolon (p : Char → Bool) (n : Nat) (t rest : Text) :
    (t ++ ';' :: rest).drop ((t.take n).takeWhile p).length
      = t.drop ((t.take n).takeWhile p).length ++ ';' :: rest :=
  List.drop_append_of_le_length
    ((List.takeWhile_prefix p).length_le.trans (List.length_take_le' n t))

theorem readEscape_stops {t : Text} (h : t ≠ []) : Stops readEscape t := by
  intro rest
  have hdigits := takeWhile_take_semicolon (p := Text.isHexDigit) rfl 6 t rest
  unfold readEscape
  simp only [hdigits]
  split
  · cases t with
    | nil => exact absurd rfl h
    | cons c t => rfl
  · rw [drop_takeWhile_semicolon, dropSpace_semicolon]

theorem startsEscape_semicolon (c : Char) (t rest : Text) :
    startsEscape (c :: (t ++ ';' :: rest)) = startsEscape (c :: t) := by
  by_cases hc : c = '\\'
  · subst hc
    cases t with
    | nil => rfl
    | cons d t =>
      by_cases hd : d = '\n'
      · subst hd
        rfl
      · simp [startsEscape, hd]
  · rw [startsEscape_of_ne hc, startsEscape_of_ne hc]

/-! ## Names -/

theorem startsIdent_semicolon (t rest : Text) : startsIdent (t ++ ';' :: rest) = startsIdent t := by
  cases t with
  | nil => rfl
  | cons c t =>
    by_cases hdash : c = '-'
    · subst hdash
      cases t with
      | nil => rfl
      | cons d t =>
        by_cases hd : d = '-'
        · subst hd
          rfl
        · simp [startsIdent, startsEscape_semicolon d t rest]
    · simp [startsIdent, hdash, startsEscape_semicolon c t rest]

theorem startsName_semicolon (t rest : Text) : startsName (t ++ ';' :: rest) = startsName t := by
  cases t with
  | nil => rfl
  | cons c t => exact congrArg (isNameChar c || ·) (startsEscape_semicolon c t rest)

theorem readName_cons {c : Char} (hc : isNameChar c = true) (t : Text) :
    readName (c :: t) = prepend c (readName t) := by
  rw [readName, if_pos hc]

theorem readName_escape {c : Char} {t : Text} (hc : ¬isNameChar c = true)
    (h : startsEscape (c :: t) = true) :
    readName (c :: t) = prepend (readEscape t).1 (readName (readEscape t).2) := by
  rw [readName, if_neg hc, if_pos h]

theorem readName_other {c : Char} {t : Text} (hc : ¬isNameChar c = true)
    (h : ¬startsEscape (c :: t) = true) : readName (c :: t) = ([], c :: t) := by
  rw [readName, if_neg hc, if_neg h]

theorem readName_stops (t : Text) : StopsOrTakes readName t := by
  fun_induction readName t with
  | case1 =>
    refine .inl fun rest => ?_
    rw [readName]
    exact readName_other (by decide) (by rw [startsEscape_of_ne (by decide)]; decide)
  | case2 c t hc ih =>
    exact ih.map (c :: ·) (fun rest => readName_cons hc (t ++ ';' :: rest)) (readName_cons hc t)
  | case3 c t hc hescape ih =>
    have hmore (rest : Text) : readName (c :: (t ++ ';' :: rest)) = _ :=
      readName_escape hc ((startsEscape_semicolon c t rest).trans hescape)
    by_cases ht : t = []
    · -- the escape takes in the semicolon
      subst ht
      refine .inr ?_
      rw [List.cons_append, hmore, prepend_snd]
      exact congrArg Prod.snd readName.eq_1
    · refine ih.map ((readEscape t).1 :: ·) (fun rest => ?_) (readName_escape hc hescape)
      rw [List.cons_append, hmore, readEscape_stops ht rest]
      rfl
  | case4 c t hc hescape =>
    refine .inl fun rest => ?_
    rw [readName_other hc hescape]
    exact readName_other hc ((startsEscape_semicolon c t rest).symm ▸ hescape)

/-! ## Strings and URLs -/

/-- What is read and how it ended, together. -/
def together {β γ : Type} (found : α × β × γ) : (α × β) × γ := ((found.1, found.2.1), found.2.2)

/-- Put a character in front of what was read. -/
def prependTo (c : Char) {β : Type} (found : Text × β) : Text × β := (c :: found.1, found.2)

theorem readString_nil (quote : Char) : readString quote [] = ([], .unfinished, []) := by
  rw [readString]

theorem readString_cons {quote c : Char} (hquote : c ≠ quote) (hslash : c ≠ '\\') (hbreak : c ≠ '\n')
    (t : Text) : readString quote (c :: t) = prepend c (readString quote t) := by
  rw [readString.eq_def]
  exact (if_neg hquote).trans ((if_neg hslash).trans (if_neg hbreak))

theorem readString_quote (quote : Char) (t : Text) :
    readString quote (quote :: t) = ([], .closed, t) := by
  rw [readString.eq_def]
  exact if_pos rfl

theorem readString_newline {quote : Char} (hquote : '\n' ≠ quote) (t : Text) :
    readString quote ('\n' :: t) = ([], .broken, '\n' :: t) := by
  rw [readString.eq_def]
  exact if_neg hquote

theorem readString_escape {quote d : Char} (hquote : '\\' ≠ quote) (hbreak : d ≠ '\n') (t : Text) :
    readString quote ('\\' :: d :: t)
      = prepend (readEscape (d :: t)).1 (readString quote (readEscape (d :: t)).2) := by
  rw [readString.eq_def]
  exact (if_neg hquote).trans (if_neg hbreak)

theorem readString_break {quote : Char} (hquote : '\\' ≠ quote) (t : Text) :
    readString quote ('\\' :: '\n' :: t) = readString quote t := by
  rw [readString.eq_def]
  exact if_neg hquote

theorem readString_stops {quote : Char} (hquote : ';' ≠ quote) (t : Text) :
    StopsOrTakes (fun t => together (readString quote t)) t := by
  fun_induction readString quote t with
  | case1 =>
    refine .inr ?_
    dsimp only
    rw [List.nil_append, readString_cons hquote (by decide) (by decide), readString_nil]
    rfl
  | case2 t =>
    refine .inl fun rest => ?_
    dsimp only
    rw [List.cons_append, readString_quote, readString_quote]
    rfl
  | case3 hslash =>
    -- the backslash takes in the semicolon
    refine .inr ?_
    dsimp only
    rw [List.singleton_append, readString_escape hslash (d := ';') (by decide)]
    exact congrArg (·.2.2) (readString_nil quote)
  | case4 t hslash ih =>
    refine ih.map id (fun rest => ?_) ?_
    · rw [List.cons_append, List.cons_append, readString_break hslash]
      rfl
    · rw [readString_break hslash]
      rfl
  | case5 d t hbreak hslash ih =>
    refine ih.map (prependTo (readEscape (d :: t)).1) (fun rest => ?_) ?_
    · rw [List.cons_append, List.cons_append, readString_escape hslash hbreak, ← List.cons_append,
        readEscape_stops (List.cons_ne_nil d t)]
      rfl
    · rw [readString_escape hslash hbreak]
      rfl
  | case6 t hquote hslash =>
    refine .inl fun rest => ?_
    dsimp only
    rw [List.cons_append, readString_newline hquote, readString_newline hquote]
    rfl
  | case7 c t hne hslash hbreak ih =>
    refine ih.map (prependTo c) (fun rest => ?_) ?_
    · rw [List.cons_append, readString_cons hne hslash hbreak]
      rfl
    · rw [readString_cons hne hslash hbreak]
      rfl

theorem readUrl_nil : readUrl [] = ([], .unfinished, []) := by rw [readUrl]

theorem readUrl_closing (t : Text) : readUrl (')' :: t) = ([], .closed, t) := by
  rw [readUrl, if_pos rfl]

section

variable {c : Char} {t : Text}

theorem readUrl_space (hclosing : c ≠ ')') (hspace : isSpace c = true) :
    readUrl (c :: t) = ([], .space, t) := by
  rw [readUrl, if_neg hclosing, if_pos hspace]

theorem readUrl_escape (hclosing : c ≠ ')') (hspace : ¬isSpace c = true)
    (hescape : startsEscape (c :: t) = true) :
    readUrl (c :: t) = prepend (readEscape t).1 (readUrl (readEscape t).2) := by
  rw [readUrl, if_neg hclosing, if_neg hspace, if_pos hescape]

theorem readUrl_bad (hclosing : c ≠ ')') (hspace : ¬isSpace c = true)
    (hescape : ¬startsEscape (c :: t) = true) (hbad : isBadInUrl c = true) :
    readUrl (c :: t) = ([], .bad, t) := by
  rw [readUrl, if_neg hclosing, if_neg hspace, if_neg hescape, if_pos hbad]

theorem readUrl_cons (hclosing : c ≠ ')') (hspace : ¬isSpace c = true)
    (hescape : ¬startsEscape (c :: t) = true) (hbad : ¬isBadInUrl c = true) :
    readUrl (c :: t) = prepend c (readUrl t) := by
  rw [readUrl, if_neg hclosing, if_neg hspace, if_neg hescape, if_neg hbad]

end

theorem readUrl_semicolon (t : Text) : readUrl (';' :: t) = prepend ';' (readUrl t) :=
  readUrl_cons (by decide) (by decide) (by rw [startsEscape_of_ne (by decide)]; decide) (by decide)

theorem readUrl_stops (t : Text) : StopsOrTakes (fun t => together (readUrl t)) t := by
  fun_induction readUrl t with
  | case1 =>
    refine .inr ?_
    dsimp only
    rw [List.nil_append, readUrl_semicolon, readUrl_nil]
    rfl
  | case2 t =>
    refine .inl fun rest => ?_
    dsimp only
    rw [List.cons_append, readUrl_closing, readUrl_closing]
    rfl
  | case3 c t hclosing hspace =>
    refine .inl fun rest => ?_
    dsimp only
    rw [List.cons_append, readUrl_space hclosing hspace, readUrl_space hclosing hspace]
    rfl
  | case4 c t hclosing hspace hescape ih =>
    have hmore (rest : Text) : readUrl (c :: (t ++ ';' :: rest)) = _ :=
      readUrl_escape hclosing hspace ((startsEscape_semicolon c t rest).trans hescape)
    by_cases ht : t = []
    · subst ht
      refine .inr ?_
      dsimp only
      rw [List.cons_append, hmore]
      exact congrArg (·.2.2) readUrl_nil
    · refine ih.map (prependTo (readEscape t).1) (fun rest => ?_) ?_
      · rw [List.cons_append, hmore, readEscape_stops ht]
        rfl
      · rw [readUrl_escape hclosing hspace hescape]
        rfl
  | case5 c t hclosing hspace hescape hbad =>
    refine .inl fun rest => ?_
    have hmore := (startsEscape_semicolon c t rest).symm ▸ hescape
    dsimp only
    rw [List.cons_append, readUrl_bad hclosing hspace hmore hbad,
      readUrl_bad hclosing hspace hescape hbad]
    rfl
  | case6 c t hclosing hspace hescape hbad ih =>
    refine ih.map (prependTo c) (fun rest => ?_) ?_
    · have hmore := (startsEscape_semicolon c t rest).symm ▸ hescape
      rw [List.cons_append, readUrl_cons hclosing hspace hmore hbad]
      rfl
    · rw [readUrl_cons hclosing hspace hescape hbad]
      rfl

theorem skipUrl_stops (t : Text) : StopsOrTakes (fun t => ((), skipUrl t)) t := by
  fun_induction skipUrl t with
  | case1 => exact .inr rfl
  | case2 t ih => exact ih.map id (fun _ => rfl) rfl
  | case3 t hne => exact .inl fun rest => rfl
  | case4 c t hne hclosing ih =>
    have hmore (rest : Text) : skipUrl (c :: (t ++ ';' :: rest)) = skipUrl (t ++ ';' :: rest) := by
      rw [skipUrl, if_neg hclosing]
      intro more hc heq
      cases t with
      | nil => cases heq
      | cons d t => exact hne t hc (by rw [(List.cons.inj heq).1])
    have hend : skipUrl (c :: t) = skipUrl t := by
      rw [skipUrl, if_neg hclosing]
      exact hne
    exact ih.map id (fun rest => congrArg (Prod.mk ()) (hmore rest)) (congrArg (Prod.mk ()) hend)

theorem dropWhile_isSpace_semicolon (t rest : Text) :
    (t ++ ';' :: rest).dropWhile isSpace = t.dropWhile isSpace ++ ';' :: rest :=
  Text.dropWhile_append_end fun _ hc => Option.some.inj hc ▸ rfl

/-- What follows the characters of a URL, by how they ended. -/
def afterUrl (found : Text × UrlEnd) (t : Text) : List Token × Text :=
  match found.2 with
  | .closed => ([.url found.1 true], t)
  | .unfinished => ([.url found.1 false, .endInUrl], t)
  | .bad => ([.badUrl], skipUrl t)
  | .space =>
    match t.dropWhile isSpace with
    | [] => ([.url found.1 false, .endInUrl], [])
    | c :: rest =>
      if c = ')' then ([.url found.1 true], rest) else ([.badUrl], skipUrl (c :: rest))

theorem readUrlToken_eq (t : Text) :
    readUrlToken t = afterUrl (together (readUrl (t.dropWhile isSpace))).1
      (together (readUrl (t.dropWhile isSpace))).2 := by
  unfold readUrlToken
  dsimp only
  split
  · next h =>
    rw [h, readUrl_nil]
    rfl
  · rfl

theorem afterUrl_stops (found : Text × UrlEnd) (t : Text) : StopsOrTakes (afterUrl found) t := by
  have hskip (t : Text) : StopsOrTakes (fun t => ([Token.badUrl], skipUrl t)) t :=
    (skipUrl_stops t).map (fun _ => [.badUrl]) (fun _ => rfl) rfl
  obtain ⟨url, urlEnd⟩ := found
  cases urlEnd with
  | closed => exact .inl fun _ => rfl
  | unfinished => exact .inl fun _ => rfl
  | bad => exact hskip t
  | space =>
    have hmore (rest : Text) := dropWhile_isSpace_semicolon t rest
    unfold StopsOrTakes Stops afterUrl
    dsimp only
    simp only [hmore]
    cases t.dropWhile isSpace with
    | nil => exact .inr rfl
    | cons c more =>
      by_cases hclosing : c = ')'
      · simp [hclosing]
      · simp only [List.cons_append, if_neg hclosing]
        exact hskip (c :: more)

theorem readUrlToken_stops (t : Text) : StopsOrTakes readUrlToken t := by
  have hurl := (readUrl_stops (t.dropWhile isSpace)).bind (g := afterUrl)
    (afterUrl_stops _ _) fun ⟨_, urlEnd⟩ => by cases urlEnd <;> rfl
  refine hurl.map id (fun rest => ?_) (readUrlToken_eq t)
  rw [readUrlToken_eq, dropWhile_isSpace_semicolon]
  rfl

/-! ## Numbers and ranges -/

theorem ofNumeral_stops (number t : Text) : StopsOrTakes (ofNumeral number) t := by
  by_cases hident : startsIdent t = true
  · refine (readName_stops t).map (fun name => [.dimension number name]) (fun rest => ?_) ?_
    · exact if_pos ((startsIdent_semicolon t rest).trans hident)
    · exact if_pos hident
  · refine .inl fun rest => ?_
    unfold ofNumeral
    rw [startsIdent_semicolon, if_neg hident, if_neg hident]
    cases t with
    | nil => rfl
    | cons c t =>
      by_cases hpercent : c = '%'
      · subst hpercent
        rfl
      · simp [hpercent]

theorem startsRange_semicolon (c : Char) (t rest : Text) :
    startsRange (c :: (t ++ ';' :: rest)) = startsRange (c :: t) := by
  cases t with
  | nil => simp [startsRange]
  | cons d t =>
    by_cases hplus : d = '+'
    · subst hplus
      cases t with
      | nil => exact Bool.and_false _
      | cons e t => rfl
    · simp [startsRange, hplus]

theorem readRange_stops (t : Text) : Stops readRange t := by
  intro rest
  have hdigits (u : Text) := takeWhile_take_semicolon (p := Text.isHexDigit) rfl 6 u rest
  unfold readRange
  simp only [hdigits, drop_takeWhile_semicolon]
  generalize t.drop ((t.take 6).takeWhile Text.isHexDigit).length = tail
  generalize (t.take 6).takeWhile Text.isHexDigit = first
  have hmarks := takeWhile_take_semicolon (p := (· == '?')) rfl (6 - first.length) tail rest
  simp only [hmarks, drop_takeWhile_semicolon]
  split
  · rfl
  · cases tail with
    | nil => rfl
    | cons c more =>
      by_cases hdash : c = '-'
      · subst hdash
        simp only [List.cons_append, hdigits, drop_takeWhile_semicolon]
        split <;> rfl
      · simp [hdash]

/-! ## Names -/

theorem startsQuote_semicolon (t rest : Text) :
    startsQuote (t ++ ';' :: rest) = startsQuote t := by
  unfold startsQuote
  rw [dropWhile_isSpace_semicolon]
  cases t.dropWhile isSpace <;> rfl

theorem ofName_stops (name t : Text) : StopsOrTakes (ofName name) t := by
  cases t with
  | nil => exact .inl fun _ => rfl
  | cons c t =>
    by_cases hopening : c = '('
    · subst hopening
      by_cases hurl : (Text.asciiLower name = urlName && !startsQuote t) = true
      · refine (readUrlToken_stops t).map id (fun rest => ?_) (if_pos hurl)
        exact if_pos (hurl ▸ congrArg (Text.asciiLower name = urlName && !·)
          (startsQuote_semicolon t rest))
      · refine .inl fun rest => ?_
        have hmore : ¬(Text.asciiLower name = urlName && !startsQuote (t ++ ';' :: rest)) = true := by
          rw [startsQuote_semicolon]
          exact hurl
        rw [ofName, if_neg hurl]
        exact if_neg hmore
    · refine .inl fun rest => ?_
      simp [ofName, hopening]

/-! ## Other tokens -/

/-- The tokens of a string, by how it ended. -/
def afterString (found : Text × StringEnd) (t : Text) : List Token × Text :=
  match found.2 with
  | .closed => ([.string found.1 true], t)
  | .unfinished => ([.string found.1 false, .endInString], t)
  | .broken => ([.badString], t)

theorem readStringTokens_stops {quote : Char} (hquote : ';' ≠ quote) (t : Text) :
    StopsOrTakes (readStringTokens quote) t := by
  refine (readString_stops hquote t).bind (g := afterString) (.inl fun rest => ?_) ?_
  · unfold afterString
    split <;> rfl
  · rintro ⟨_, stringEnd⟩
    cases stringEnd <;> rfl

theorem skipComment_stops (t : Text) : StopsOrTakes (fun t => ((), skipComment t)) t := by
  fun_induction skipComment t with
  | case1 => exact .inr rfl
  | case2 t => exact .inl fun rest => rfl
  | case3 c t hne ih =>
    have hmore (rest : Text) :
        skipComment (c :: (t ++ ';' :: rest)) = skipComment (t ++ ';' :: rest) := by
      rw [skipComment]
      intro more hc heq
      cases t with
      | nil => cases heq
      | cons d t => exact hne t hc (by rw [(List.cons.inj heq).1])
    have hend : skipComment (c :: t) = skipComment t := by
      rw [skipComment]
      exact hne
    exact ih.map id (fun rest => congrArg (Prod.mk ()) (hmore rest)) (congrArg (Prod.mk ()) hend)

theorem isPrefixOf_semicolon {p : Text} (hp : ';' ∉ p) (t rest : Text) :
    p.isPrefixOf (t ++ ';' :: rest) = p.isPrefixOf t := by
  induction p generalizing t with
  | nil => rfl
  | cons c p ih =>
    obtain ⟨hc, hp⟩ := List.ne_and_not_mem_of_not_mem_cons hp
    cases t with
    | nil => simp [List.isPrefixOf, Ne.symm hc]
    | cons d t => exact congrArg (c == d && ·) (ih hp t)

theorem drop_semicolon {p t : Text} (h : p.isPrefixOf t = true) (rest : Text) :
    (t ++ ';' :: rest).drop p.length = t.drop p.length ++ ';' :: rest :=
  List.drop_append_of_le_length (List.isPrefixOf_iff_prefix.mp h).length_le

/-- A token that its characters make up whatever follows. -/
theorem stops_drop {b : Bool} {p t : Text} (tokens : List Token)
    (h : (b && p.isPrefixOf t) = true) :
    StopsOrTakes (fun t => (tokens, t.drop p.length)) t :=
  .inl fun rest => congrArg (Prod.mk tokens) (drop_semicolon (Bool.and_eq_true_iff.mp h).2 rest)

theorem scanMark_stops (c : Char) (t : Text) : StopsOrTakes (scanMark c) t := by
  have hmark {p : Text} (hp : ';' ∉ p) {b : Bool} (rest : Text) :
      (b && p.isPrefixOf (t ++ ';' :: rest)) = true ↔ (b && p.isPrefixOf t) = true := by
    rw [isPrefixOf_semicolon hp]
  unfold scanMark
  refine .ite (fun _ => .rfl) (fun _ => ?_) fun _ => ?_
  · refine .ite (fun rest => by rw [startsIdent_semicolon]) (fun _ => ?_) fun _ => .inl fun _ => rfl
    exact (readName_stops t).map (fun name => [.atKeyword name]) (fun _ => rfl) rfl
  refine .ite (fun _ => .rfl) (fun _ => ?_) fun _ => ?_
  · refine .ite (fun rest => by rw [startsName_semicolon]) (fun _ => ?_) fun _ => .inl fun _ => rfl
    refine (readName_stops t).map (fun name => [.hash name (startsIdent t)]) (fun rest => ?_) rfl
    rw [startsIdent_semicolon]
  refine .ite (fun _ => .rfl) (fun hquote => ?_) fun _ => ?_
  · refine readStringTokens_stops ?_ t
    rintro rfl
    exact absurd hquote (by decide)
  refine .ite (hmark (by decide)) (fun h => ?_) fun _ => ?_
  · refine (skipComment_stops (t.drop 1)).map (fun _ => []) (fun rest => ?_) rfl
    exact congrArg (fun u => (([] : List Token), skipComment u))
      (drop_semicolon (p := ['*']) (Bool.and_eq_true_iff.mp h).2 rest)
  refine .ite (hmark (by decide)) (stops_drop _) fun _ => ?_
  refine .ite (hmark (by decide)) (stops_drop _) fun _ => ?_
  refine .ite (hmark (by decide)) (stops_drop _) fun _ => ?_
  refine .inl fun rest => ?_
  split <;> rfl

theorem scan_stops (c : Char) (t : Text) : StopsOrTakes (scan c) t := by
  have hmark {p : Text} (hp : ';' ∉ p) {b : Bool} (rest : Text) :
      (b && p.isPrefixOf (t ++ ';' :: rest)) = true ↔ (b && p.isPrefixOf t) = true := by
    rw [isPrefixOf_semicolon hp]
  unfold scan
  refine .ite (fun _ => .rfl) (fun _ => .inl fun rest => ?_) fun _ => ?_
  · dsimp only
    rw [dropWhile_isSpace_semicolon, Text.takeWhile_append_end fun _ hc => Option.some.inj hc ▸ rfl]
  refine .ite (fun rest => by rw [startsRange_semicolon]) (fun h => ?_) fun _ => ?_
  · cases t with
    | nil => cases h
    | cons d t =>
      exact (readRange_stops t).orTakes.map (fun range => [range]) (fun _ => rfl) rfl
  refine .ite (hmark (by decide)) (stops_drop _) fun _ => ?_
  refine .ite (fun rest => ?_) (fun _ => ?_) fun _ => ?_
  · rw [← List.cons_append, startsIdent_semicolon]
  · have hname : StopsOrTakes (fun t => readName (c :: t)) t :=
      (readName_stops (c :: t)).map id (fun _ => rfl) rfl
    exact hname.bind (g := ofName) (ofName_stops _ _) fun _ => rfl
  · have hmore (rest : Text) : splitNumeral? (c :: (t ++ ';' :: rest))
        = (splitNumeral? (c :: t)).map fun found => (found.1, found.2 ++ ';' :: rest) :=
      splitNumeral?_append_end (endsToken_semicolon rest) (c :: t)
    cases hnumeral : splitNumeral? (c :: t) with
    | none =>
      refine (scanMark_stops c t).map id (fun rest => ?_) (by rw [hnumeral]; rfl)
      rw [hmore, hnumeral]
      rfl
    | some found =>
      refine (ofNumeral_stops found.1 found.2).map id (fun rest => ?_) (by rw [hnumeral]; rfl)
      rw [hmore, hnumeral]
      rfl

/-! ## Semicolons -/

/-- A token of one character, as it stands in a text. -/
def IsMark (token : Token) : Prop := ∃ d, token = .literal [d]

theorem not_isMark_readUrlToken (t : Text) : ∀ token ∈ (readUrlToken t).1, ¬token.IsMark := by
  rw [readUrlToken_eq]
  generalize (together (readUrl (t.dropWhile isSpace))).1 = found
  generalize (together (readUrl (t.dropWhile isSpace))).2 = more
  unfold afterUrl
  split
  · simp [IsMark]
  · simp [IsMark]
  · simp [IsMark]
  · split
    · simp [IsMark]
    · split <;> simp [IsMark]

theorem not_isMark_ofName (name t : Text) : ∀ token ∈ (ofName name t).1, ¬token.IsMark := by
  unfold ofName
  split
  · split
    · exact not_isMark_readUrlToken _
    · simp [IsMark]
  · simp [IsMark]

theorem not_isMark_ofNumeral (number t : Text) :
    ∀ token ∈ (ofNumeral number t).1, ¬token.IsMark := by
  unfold ofNumeral
  split
  · simp [IsMark]
  · split <;> simp [IsMark]

theorem not_isMark_readRange (t : Text) : ¬(readRange t).1.IsMark := by
  unfold readRange
  dsimp only
  split
  · simp [IsMark]
  · split
    · split <;> simp [IsMark]
    · simp [IsMark]

theorem not_isMark_readStringTokens (quote : Char) (t : Text) :
    ∀ token ∈ (readStringTokens quote t).1, ¬token.IsMark := by
  unfold readStringTokens
  dsimp only
  split <;> simp [IsMark]

/-- A token of one character stands for the character it starts with. -/
theorem eq_of_literal_mem_scanMark {c d : Char} {t : Text} (h : .literal [d] ∈ (scanMark c t).1) :
    c = d := by
  have hone (h : .literal [d] ∈ [Token.literal [c]]) : c = d :=
    (List.head_eq_of_cons_eq (Token.literal.inj (List.mem_singleton.mp h))).symm
  unfold scanMark at h
  split at h
  · split at h
    · simp at h
    · exact hone h
  split at h
  · split at h
    · simp at h
    · exact hone h
  split at h
  · exact absurd ⟨d, rfl⟩ (not_isMark_readStringTokens _ _ _ h)
  split at h
  · simp at h
  split at h
  · simp at h
  split at h
  · simp at h
  split at h
  · simp at h
  split at h
  · simp at h
  · simp at h
  · exact hone h

theorem eq_of_literal_mem_scan {c d : Char} {t : Text} (h : .literal [d] ∈ (scan c t).1) : c = d := by
  unfold scan at h
  split at h
  · simp at h
  split at h
  · exact absurd ⟨d, (List.mem_singleton.mp h).symm⟩ (not_isMark_readRange _)
  split at h
  · simp at h
  split at h
  · exact absurd ⟨d, rfl⟩ (not_isMark_ofName _ _ _ h)
  split at h
  · exact absurd ⟨d, rfl⟩ (not_isMark_ofNumeral _ _ _ h)
  · exact eq_of_literal_mem_scanMark h

theorem scan_semicolon (t : Text) : scan ';' t = ([.literal [';']], t) := by
  have hrange : startsRange (';' :: t) = false := startsRange_eq_false (by decide) (by decide)
  have hident : startsIdent (';' :: t) = false := startsIdent_cons (by decide) (by decide)
  have hnumeral : splitNumeral? (';' :: t) = none := rfl
  rw [scan_eq (by decide) hrange rfl, hident, hnumeral]
  rfl

theorem scanAll_semicolon (t : Text) : scanAll (';' :: t) = .literal [';'] :: scanAll t := by
  rw [scanAll_cons, scan_semicolon]
  rfl

/-! ## All tokens -/

/-- A text whose tokens a semicolon at its end leaves as they are. -/
def EndsAtSemicolon (t : Text) : Prop := scanAll (t ++ [';']) = scanAll t ++ [.literal [';']]

instance (t : Text) : Decidable (EndsAtSemicolon t) :=
  inferInstanceAs (Decidable (scanAll (t ++ [';']) = scanAll t ++ [.literal [';']]))

/-- Such a text is scanned by itself, and so is what stands behind the semicolon. -/
theorem EndsAtSemicolon.scanAll_append {t : Text} (h : EndsAtSemicolon t) (rest : Text) :
    scanAll (t ++ ';' :: rest) = scanAll t ++ .literal [';'] :: scanAll rest := by
  unfold EndsAtSemicolon at h
  fun_induction scanAll t with
  | case1 => exact scanAll_semicolon rest
  | case2 c t ih =>
    rw [List.cons_append, scanAll_cons] at h ⊢
    rcases scan_stops c t with hstop | htake
    · rw [hstop] at h ⊢
      rw [List.append_assoc, List.append_cancel_left_eq] at h
      rw [ih h, List.append_assoc]
    · -- the last token takes the semicolon in, so it is a mark of its own
      rw [htake, scanAll_nil, List.append_nil] at h
      have hmem : .literal [';'] ∈ (scan c (t ++ [';'])).1 := by
        rw [h]
        exact List.mem_append_right _ (List.mem_singleton_self _)
      obtain rfl := eq_of_literal_mem_scan hmem
      rw [scan_semicolon] at htake
      exact absurd htake (by simp)

end CssValues.Token
