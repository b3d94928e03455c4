import CssValues.Proofs.Text.Folding
import CssValues.Proofs.Text.HexDigits
import CssValues.Proofs.Token.Closed
import CssValues.Proofs.Token.Lowered
import CssValues.Proofs.Token.Normalize

/-!
# Tokens in another case

A text in small letters is cut into the same tokens, but for the case of the letters in them
(`Token.scanAll_asciiLower`).
-/

namespace CssValues

open Text (asciiLower isTranscription_toLower)

namespace Token

open Text (toLower_congr toLower_eq_iff forall_isLetter)

/-! ## Characters -/

theorem isSpace_toLower (c : Char) : isSpace c.toLower = isSpace c :=
  toLower_congr (fun _ => forall_isLetter (p := fun c => isSpace c = false) (by decide)) c

theorem isAsciiDigit_toLower (c : Char) : Text.isAsciiDigit c.toLower = Text.isAsciiDigit c :=
  toLower_congr (fun _ => forall_isLetter (p := fun c => Text.isAsciiDigit c = false) (by decide)) c

theorem isBadInUrl_toLower (c : Char) : isBadInUrl c.toLower = isBadInUrl c :=
  toLower_congr (fun _ => forall_isLetter (p := fun c => isBadInUrl c = false) (by decide)) c

theorem isNameStart_toLower (c : Char) : isNameStart c.toLower = isNameStart c :=
  toLower_congr (a := true) (fun c hc => by simp [isNameStart, hc]) c

theorem isNameChar_toLower (c : Char) : isNameChar c.toLower = isNameChar c :=
  toLower_congr (a := true) (fun c hc => by simp [isNameChar, isNameStart, hc]) c

/-- A row of spaces has no letters. -/
theorem asciiLower_spaces {w : Text} (h : ∀ c ∈ w, isSpace c = true) : asciiLower w = w := by
  refine Text.asciiLower_eq_self fun c hc => ?_
  rw [← Bool.not_eq_true]
  intro hletter
  have hspace := forall_isLetter (p := fun c => isSpace c = false) (by decide) hletter
  rw [h c hc] at hspace
  cases hspace

theorem startsEscape_backslash (c : Char) (t : Text) : startsEscape ('\\' :: c :: t) = (c != '\n') := by
  by_cases h : c = '\n'
  · rw [h]
    rfl
  · rw [bne_iff_ne.mpr h]
    unfold startsEscape
    split
    · next heq => exact absurd (List.cons.inj (List.cons.inj heq).2).1 h
    · rfl
    · next hnot => exact absurd rfl (hnot _)

theorem startsEscape_asciiLower (t : Text) : startsEscape (asciiLower t) = startsEscape t := by
  cases t with
  | nil => rfl
  | cons c t =>
    by_cases hslash : c = '\\'
    · subst hslash
      cases t with
      | nil => rfl
      | cons d t =>
        have hbreak : (d.toLower != '\n') = (d != '\n') := by
          rw [Bool.eq_iff_iff, bne_iff_ne, bne_iff_ne, Ne, Ne, toLower_eq_iff (by decide)]
        exact (startsEscape_backslash _ _).trans (hbreak.trans (startsEscape_backslash d t).symm)
    · rw [Text.asciiLower_cons, startsEscape_of_ne hslash,
        startsEscape_of_ne (mt (toLower_eq_iff (by decide)).mp hslash)]

theorem startsIdent_of_ne {c : Char} (h : c ≠ '-') (t : Text) :
    startsIdent (c :: t) = (isNameStart c || startsEscape (c :: t)) := by
  unfold startsIdent
  split
  · next heq => cases heq
  · next heq => exact absurd (List.cons.inj heq).1 h
  · next heq => exact absurd (List.cons.inj heq).1 h
  · next heq => exact absurd (List.cons.inj heq).1 h
  · next heq =>
    obtain ⟨rfl, rfl⟩ := List.cons.inj heq
    rfl

theorem startsIdent_dash_of_ne {c : Char} (h : c ≠ '-') (t : Text) :
    startsIdent ('-' :: c :: t) = (isNameStart c || startsEscape (c :: t)) := by
  unfold startsIdent
  split
  · next heq => cases heq
  · next heq => exact absurd (List.cons.inj (List.cons.inj heq).2).1 h
  · next heq =>
    obtain ⟨rfl, rfl⟩ := List.cons.inj (List.cons.inj heq).2
    rfl
  · next heq => cases heq
  · next hnot _ heq =>
    obtain ⟨rfl, rfl⟩ := List.cons.inj heq
    exact (hnot c t rfl rfl).elim

theorem startsIdent_asciiLower (t : Text) : startsIdent (asciiLower t) = startsIdent t := by
  have hplain : ∀ (c : Char) (t : Text),
      (isNameStart c.toLower || startsEscape (c.toLower :: asciiLower t))
        = (isNameStart c || startsEscape (c :: t)) := by
    intro c t
    rw [isNameStart_toLower, ← Text.asciiLower_cons, startsEscape_asciiLower]
  cases t with
  | nil => rfl
  | cons c t =>
    by_cases hdash : c = '-'
    · subst hdash
      cases t with
      | nil => rfl
      | cons d t =>
        by_cases hsecond : d = '-'
        · subst hsecond
          rfl
        · have hsecond' : d.toLower ≠ '-' := mt (toLower_eq_iff (by decide)).mp hsecond
          exact (startsIdent_dash_of_ne hsecond' _).trans
            ((hplain d t).trans (startsIdent_dash_of_ne hsecond t).symm)
    · have hdash' : c.toLower ≠ '-' := mt (toLower_eq_iff (by decide)).mp hdash
      rw [Text.asciiLower_cons, startsIdent_of_ne hdash', hplain, startsIdent_of_ne hdash]

/-! ## Readers -/

/-- What two readers found is the same as far as `m` tells, and the first left in lower case what the
second left. -/
def Alike {α β : Type} (m : α → β) (a b : α × Text) : Prop := m a.1 = m b.1 ∧ a.2 = asciiLower b.2

/-- A reader does on a text in lower case what it does on the text. -/
def Folds {α β : Type} (m : α → β) (f : Text → α × Text) (t : Text) : Prop :=
  Alike m (f (asciiLower t)) (f t)

section

variable {α β α' β' : Type} {m : α → β} {m' : α' → β'} {t u : Text}

/-- Choices that go the same way. -/
theorem Alike.ite {p q : Prop} [Decidable p] [Decidable q] {a a' b b' : α × Text} (hpq : p ↔ q)
    (h : q → Alike m a b) (h' : ¬q → Alike m a' b') :
    Alike m (if p then a else a') (if q then b else b') := by
  by_cases hq : q
  · rw [if_pos (hpq.mpr hq), if_pos hq]
    exact h hq
  · rw [if_neg (mt hpq.mp hq), if_neg hq]
    exact h' hq

/-- A reader that makes something else of what another one finds. -/
theorem Folds.map {f : Text → α' × Text} {g : Text → α × Text} (h : Folds m g u) {k k' : α → α'}
    (hk : ∀ a b, m a = m b → m' (k' a) = m' (k b))
    (hlower : f (asciiLower t) = (k' (g (asciiLower u)).1, (g (asciiLower u)).2))
    (hself : f t = (k (g u).1, (g u).2)) : Folds m' f t := by
  unfold Folds
  rw [hlower, hself]
  exact ⟨hk _ _ h.1, h.2⟩

/-- A reader that goes on where another one stops. -/
theorem Folds.bind {f : Text → α × Text} {g : α → Text → α' × Text} (hf : Folds m f t)
    (hg : ∀ a b u, m a = m b → Alike m' (g a (asciiLower u)) (g b u)) :
    Alike m' (g (f (asciiLower t)).1 (f (asciiLower t)).2) (g (f t).1 (f t).2) := by
  rw [hf.2]
  exact hg _ _ _ hf.1

/-- A reader that finds something definite, and leaves a definite rest. -/
theorem Folds.of_eq {f : Text → α × Text} {a b : α} (rest : Text) (hm : m b = m a)
    (hlower : f (asciiLower t) = (b, asciiLower rest)) (hself : f t = (a, rest)) : Folds m f t := by
  unfold Folds
  rw [hlower, hself]
  exact ⟨hm, rfl⟩

end

/-! ### Characters and names -/

theorem dropSpace_asciiLower (t : Text) : dropSpace (asciiLower t) = asciiLower (dropSpace t) := by
  cases t with
  | nil => rfl
  | cons c t =>
    rw [Text.asciiLower_cons, dropSpace, dropSpace, isSpace_toLower]
    split <;> rfl

theorem drop_asciiLower (n : Nat) (t : Text) : (asciiLower t).drop n = asciiLower (t.drop n) :=
  List.map_drop.symm

/-- The first of some characters do not depend on case, and neither does how many they are. -/
theorem takeWhile_take_asciiLower {p : Char → Bool} (hp : ∀ c, p c.toLower = p c) (n : Nat) (t : Text) :
    ((asciiLower t).take n).takeWhile p = asciiLower ((t.take n).takeWhile p) := by
  rw [asciiLower, ← List.map_take, Text.takeWhile_map hp, asciiLower]

theorem isEmpty_asciiLower (t : Text) : (asciiLower t).isEmpty = t.isEmpty := List.isEmpty_map

theorem length_asciiLower (t : Text) : (asciiLower t).length = t.length := List.length_map _

/-- An escape stands for the same character, letters apart. -/
theorem readEscape_folds (t : Text) : Folds Char.toLower readEscape t := by
  unfold Folds Alike readEscape
  simp only [takeWhile_take_asciiLower Text.isHexDigit_toLower, isEmpty_asciiLower, length_asciiLower,
    Text.ofHexDigits_asciiLower, drop_asciiLower, dropSpace_asciiLower]
  split
  · cases t with
    | nil => exact ⟨rfl, rfl⟩
    | cons c t => exact ⟨Text.toLower_toLower c, rfl⟩
  · exact ⟨rfl, rfl⟩

theorem prepend_folds {c d : Char} (hc : d.toLower = c.toLower) (a b : Text)
    (h : asciiLower a = asciiLower b) : asciiLower (d :: a) = asciiLower (c :: b) :=
  congrArg₂ List.cons hc h

theorem readName_folds (t : Text) : Folds asciiLower readName t := by
  fun_induction readName t with
  | case1 =>
    have hnil : readName [] = ([], []) := by rw [readName]
    exact .of_eq [] rfl hnil hnil
  | case2 c rest hc ih =>
    have hchar : isNameChar c.toLower = true := by rwa [isNameChar_toLower]
    exact ih.map (prepend_folds (Text.toLower_toLower c)) (readName_cons hchar _) (readName_cons hc rest)
  | case3 c rest hc hescape ih =>
    have hlower : startsEscape (c.toLower :: asciiLower rest) = true := by
      rw [← Text.asciiLower_cons, startsEscape_asciiLower, hescape]
    have hname : ¬isNameChar c.toLower = true := by rwa [isNameChar_toLower]
    obtain ⟨hchar, hrest⟩ := readEscape_folds rest
    refine ih.map (prepend_folds hchar) ?_ (readName_escape hc hescape)
    rw [Text.asciiLower_cons, readName_escape hname hlower, hrest]
    rfl
  | case4 c rest hc hescape =>
    have hlower : startsEscape (c.toLower :: asciiLower rest) ≠ true := by
      rwa [← Text.asciiLower_cons, startsEscape_asciiLower]
    have hchar : ¬isNameChar c.toLower = true := by rwa [isNameChar_toLower]
    exact .of_eq (c :: rest) rfl (readName_other hchar hlower) (readName_other hc hescape)

/-! ### Strings and URLs -/

/-- The characters in lower case, with how they ended. -/
def lowerFound {β : Type} (found : Text × β) : Text × β := (asciiLower found.1, found.2)

theorem prependTo_folds {β : Type} {c d : Char} (hc : d.toLower = c.toLower) (a b : Text × β)
    (h : lowerFound a = lowerFound b) : lowerFound (prependTo d a) = lowerFound (prependTo c b) :=
  Prod.ext (congrArg₂ List.cons hc (Prod.mk.inj h).1) (Prod.mk.inj h).2

theorem readString_folds {quote : Char} (hquote : Text.isLetter quote = false) (t : Text) :
    Folds lowerFound (fun t => together (readString quote t)) t := by
  have hslash : Text.isLetter '\\' = false := by decide
  have hline : Text.isLetter '\n' = false := by decide
  fun_induction readString quote t with
  | case1 =>
    exact .of_eq [] rfl (congrArg together (readString_nil quote))
      (congrArg together (readString_nil quote))
  | case2 t =>
    have hself : asciiLower (quote :: t) = quote :: asciiLower t := by
      rw [Text.asciiLower_cons, Text.toLower_eq_self hquote]
    refine .of_eq t rfl ?_ (congrArg together (readString_quote quote t))
    rw [hself, readString_quote]
    rfl
  | case3 hne =>
    have hend : readString quote ['\\'] = ([], .unfinished, []) := by
      rw [readString.eq_def]
      exact if_neg hne
    exact .of_eq [] rfl (congrArg together hend) (congrArg together hend)
  | case4 t hne ih =>
    refine ih.map (fun _ _ => id) ?_ ?_
    · exact congrArg together (readString_break hne _)
    · exact congrArg together (readString_break hne _)
  | case5 d t hbreak hne ih =>
    have hbreak' : d.toLower ≠ '\n' := mt (toLower_eq_iff hline).mp hbreak
    obtain ⟨hchar, hrest⟩ := readEscape_folds (d :: t)
    refine ih.map (prependTo_folds hchar) ?_ ?_
    · refine (congrArg together (readString_escape hne hbreak' _)).trans ?_
      exact congrArg (fun u => together (prepend (readEscape (asciiLower (d :: t))).1
        (readString quote u))) hrest
    · exact congrArg together (readString_escape hne hbreak _)
  | case6 t hne hne' =>
    exact .of_eq ('\n' :: t) rfl (congrArg together (readString_newline hne _))
      (congrArg together (readString_newline hne _))
  | case7 c t hne hne' hbreak ih =>
    refine ih.map (prependTo_folds (Text.toLower_toLower c)) ?_ ?_
    · refine congrArg together (readString_cons ?_ ?_ ?_ _)
      · exact mt (toLower_eq_iff hquote).mp hne
      · exact mt (toLower_eq_iff hslash).mp hne'
      · exact mt (toLower_eq_iff hline).mp hbreak
    · exact congrArg together (readString_cons hne hne' hbreak _)

theorem readUrl_folds (t : Text) : Folds lowerFound (fun t => together (readUrl t)) t := by
  have hopen {c : Char} (h : c ≠ ')') : c.toLower ≠ ')' := mt (toLower_eq_iff (by decide)).mp h
  have hplain {c : Char} {t : Text} (h : ¬startsEscape (c :: t) = true) :
      ¬startsEscape (c.toLower :: asciiLower t) = true := by
    rwa [← Text.asciiLower_cons, startsEscape_asciiLower]
  fun_induction readUrl t with
  | case1 => exact .of_eq [] rfl (congrArg together readUrl_nil) (congrArg together readUrl_nil)
  | case2 t =>
    exact .of_eq t rfl (congrArg together (readUrl_closing _)) (congrArg together (readUrl_closing _))
  | case3 c t hclosing hspace =>
    exact .of_eq t rfl (congrArg together (readUrl_space (hopen hclosing) (by rwa [isSpace_toLower])))
      (congrArg together (readUrl_space hclosing hspace))
  | case4 c t hclosing hspace hescape ih =>
    have hescape' : startsEscape (c.toLower :: asciiLower t) = true := by
      rw [← Text.asciiLower_cons, startsEscape_asciiLower, hescape]
    obtain ⟨hchar, hrest⟩ := readEscape_folds t
    refine ih.map (prependTo_folds hchar) ?_ ?_
    · refine (congrArg together
        (readUrl_escape (hopen hclosing) (by rwa [isSpace_toLower]) hescape')).trans ?_
      rw [hrest]
      rfl
    · exact congrArg together (readUrl_escape hclosing hspace hescape)
  | case5 c t hclosing hspace hescape hbad =>
    exact .of_eq t rfl (congrArg together (readUrl_bad (hopen hclosing) (by rwa [isSpace_toLower])
      (hplain hescape) (by rwa [isBadInUrl_toLower])))
      (congrArg together (readUrl_bad hclosing hspace hescape hbad))
  | case6 c t hclosing hspace hescape hbad ih =>
    refine ih.map (prependTo_folds (Text.toLower_toLower c)) ?_ ?_
    · exact congrArg together (readUrl_cons (hopen hclosing) (by rwa [isSpace_toLower]) (hplain hescape)
        (by rwa [isBadInUrl_toLower]))
    · exact congrArg together (readUrl_cons hclosing hspace hescape hbad)

theorem skipUrl_asciiLower (t : Text) : skipUrl (asciiLower t) = asciiLower (skipUrl t) := by
  have hclose : Text.isLetter ')' = false := by decide
  have hslash : Text.isLetter '\\' = false := by decide
  fun_induction skipUrl t with
  | case1 => rfl
  | case2 t ih => exact ih
  | case3 t hne => rfl
  | case4 c t hne hclosing ih =>
    have hclosing' : c.toLower ≠ ')' := mt (toLower_eq_iff hclose).mp hclosing
    rw [Text.asciiLower_cons, skipUrl, if_neg hclosing', ih]
    -- a backslash and a parenthesis in lower case were just these
    intro more hc heq
    cases t with
    | nil => cases heq
    | cons d t =>
      obtain ⟨hd, -⟩ := List.cons.inj heq
      exact hne t ((toLower_eq_iff hslash).mp hc) (by rw [(toLower_eq_iff hclose).mp hd])

theorem dropWhile_asciiLower (t : Text) :
    (asciiLower t).dropWhile isSpace = asciiLower (t.dropWhile isSpace) :=
  Text.dropWhile_map isSpace_toLower t

/-! ## Tokens -/

/-- A token with its letters in lower case. White space and marks have none. -/
def folded : Token → Token
  | .ident name => .ident (asciiLower name)
  | .function name => .function (asciiLower name)
  | .atKeyword name => .atKeyword (asciiLower name)
  | .hash name isIdentifier => .hash (asciiLower name) isIdentifier
  | .number text => .number (asciiLower text)
  | .percentage text => .percentage (asciiLower text)
  | .dimension text unitName => .dimension (asciiLower text) (asciiLower unitName)
  | .string value closed => .string (asciiLower value) closed
  | .url value closed => .url (asciiLower value) closed
  | token => token

/-- Two rests with tokens in front that are the same but for case. -/
abbrev TokensAlike (a b : List Token × Text) : Prop := Alike (List.map folded) a b

theorem afterUrl_alike (a b : Text × UrlEnd) (t : Text) (h : lowerFound a = lowerFound b) :
    TokensAlike (afterUrl a (asciiLower t)) (afterUrl b t) := by
  have hclose : Text.isLetter ')' = false := by decide
  obtain ⟨url, urlEnd⟩ := a
  obtain ⟨url', urlEnd'⟩ := b
  obtain ⟨hurl, rfl⟩ : asciiLower url = asciiLower url' ∧ urlEnd = urlEnd' := Prod.mk.inj h
  have hsame (closed : Bool) : folded (.url url closed) = folded (.url url' closed) :=
    congrArg (Token.url · closed) hurl
  cases urlEnd with
  | closed => exact ⟨congrArg (· :: []) (hsame true), rfl⟩
  | unfinished => exact ⟨congrArg (· :: [Token.endInUrl]) (hsame false), rfl⟩
  | bad => exact ⟨rfl, skipUrl_asciiLower t⟩
  | space =>
    unfold afterUrl
    dsimp only
    rw [dropWhile_asciiLower]
    cases t.dropWhile isSpace with
    | nil => exact ⟨congrArg (· :: [Token.endInUrl]) (hsame false), rfl⟩
    | cons c rest =>
      refine .ite (toLower_eq_iff hclose) (fun _ => ?_) fun _ => ?_
      · exact ⟨congrArg (· :: []) (hsame true), rfl⟩
      · exact ⟨rfl, skipUrl_asciiLower (c :: rest)⟩

theorem readUrlToken_folds (t : Text) : Folds (List.map folded) readUrlToken t := by
  unfold Folds
  rw [readUrlToken_eq, readUrlToken_eq, dropWhile_asciiLower]
  exact (readUrl_folds (t.dropWhile isSpace)).bind afterUrl_alike

theorem startsQuote_asciiLower (t : Text) : startsQuote (asciiLower t) = startsQuote t := by
  unfold startsQuote
  rw [dropWhile_asciiLower]
  cases t.dropWhile isSpace with
  | nil => rfl
  | cons c rest =>
    exact toLower_congr (g := fun c => c == '"' || c.toNat == 0x27)
      (fun _ => forall_isLetter (p := fun c => (c == '"' || c.toNat == 0x27) = false) (by decide)) c

theorem ofName_alike (a b : Text) (t : Text) (h : asciiLower a = asciiLower b) :
    TokensAlike (ofName a (asciiLower t)) (ofName b t) := by
  have hopen : Text.isLetter '(' = false := by decide
  have hident : ∀ t, TokensAlike ([.ident a], asciiLower t) ([.ident b], t) := fun _ =>
    ⟨congrArg (fun name => [Token.ident name]) h, rfl⟩
  cases t with
  | nil => exact hident []
  | cons c t =>
    by_cases hc : c = '('
    · subst hc
      refine .ite ?_ (fun _ => readUrlToken_folds t) fun _ => ?_
      · have hquote : startsQuote (t.map Char.toLower) = startsQuote t := startsQuote_asciiLower t
        rw [h, hquote]
      · exact ⟨congrArg (fun name => [Token.function name]) h, rfl⟩
    · have hc' : c.toLower ≠ '(' := mt (toLower_eq_iff hopen).mp hc
      have hself : ofName b (c :: t) = ([.ident b], c :: t) := by simp [ofName, hc]
      have hlower : ofName a (c.toLower :: asciiLower t) = ([.ident a], c.toLower :: asciiLower t) := by
        simp [ofName, hc']
      rw [Text.asciiLower_cons, hself, hlower]
      exact hident (c :: t)

/-! ### Numbers and ranges -/

theorem fractionDigits_asciiLower (t : Text) :
    fractionDigits (asciiLower t) = asciiLower (fractionDigits t) := by
  have hpoint : Text.isLetter '.' = false := by decide
  cases t with
  | nil => rfl
  | cons c t =>
    by_cases hc : c = '.'
    · rw [hc]
      exact Text.takeWhile_map isAsciiDigit_toLower t
    · have hc' : c.toLower ≠ '.' := mt (toLower_eq_iff hpoint).mp hc
      simp [fractionDigits, hc, hc', asciiLower]

theorem splitNumeral?_asciiLower (t : Text) :
    splitNumeral? (asciiLower t) = (splitNumeral? t).map (Text.mapBoth Char.toLower) := by
  have hexponent := isTranscription_toLower.splitExponent_map isAsciiDigit_toLower
  unfold splitNumeral?
  rw [asciiLower, isTranscription_toLower.splitSign_map]
  simp only [Text.mapBoth, Text.takeWhile_map isAsciiDigit_toLower,
    Text.dropWhile_map isAsciiDigit_toLower]
  generalize (splitSign t).2.takeWhile Text.isAsciiDigit = whole
  generalize (splitSign t).2.dropWhile Text.isAsciiDigit = rest
  have hfraction : fractionDigits (rest.map Char.toLower) = (fractionDigits rest).map Char.toLower :=
    fractionDigits_asciiLower rest
  simp only [hfraction, List.isEmpty_map, List.length_map, ← List.map_drop, hexponent, Text.mapBoth]
  split
  · simp only [Option.map_some, Text.mapBoth, List.map_append, List.map_cons]
    rfl
  · split
    · simp only [Option.map_some, Text.mapBoth, List.map_append]
    · rfl

theorem ofNumeral_alike {a b : Text} (h : asciiLower a = asciiLower b) (t : Text) :
    TokensAlike (ofNumeral a (asciiLower t)) (ofNumeral b t) := by
  have hpercent : Text.isLetter '%' = false := by decide
  have hnumber : ∀ t, TokensAlike ([.number a], asciiLower t) ([.number b], t) := fun _ =>
    ⟨congrArg (fun text => [Token.number text]) h, rfl⟩
  refine .ite (by rw [startsIdent_asciiLower]) (fun _ => ?_) fun _ => ?_
  · obtain ⟨hname, hrest⟩ := readName_folds t
    exact ⟨congrArg₂ (fun text name => [Token.dimension text name]) h hname, hrest⟩
  · cases t with
    | nil => exact hnumber []
    | cons c t =>
      by_cases hc : c = '%'
      · rw [hc]
        exact ⟨congrArg (fun text => [Token.percentage text]) h, rfl⟩
      · have hc' : c.toLower ≠ '%' := mt (toLower_eq_iff hpercent).mp hc
        split
        · next heq => exact absurd (List.cons.inj heq).1 hc'
        split
        · next heq => exact absurd (List.cons.inj heq).1 hc
        · exact hnumber (c :: t)

theorem startsRange_asciiLower (t : Text) : startsRange (asciiLower t) = startsRange t := by
  have hplus : Text.isLetter '+' = false := by decide
  have hquery : Text.isLetter '?' = false := by decide
  cases t with
  | nil => rfl
  | cons u t =>
    cases t with
    | nil => rfl
    | cons d t =>
      by_cases hd : d = '+'
      · subst hd
        cases t with
        | nil => rfl
        | cons c t =>
          have hu : (u.toLower == 'u' || u.toLower == 'U') = (u == 'u' || u == 'U') := by
            have hcapital : u.toLower ≠ 'U' := fun h => by
              have := Text.toLower_toLower u
              rw [h] at this
              exact absurd this (by decide)
            rw [Bool.eq_iff_iff, Bool.or_eq_true, Bool.or_eq_true, beq_iff_eq, beq_iff_eq, beq_iff_eq,
              beq_iff_eq]
            refine ⟨fun h => h.elim Text.eq_of_toLower_eq_u fun h => absurd h hcapital, ?_⟩
            rintro (rfl | rfl)
            · exact .inl rfl
            · exact .inl rfl
          have hc : (c.toLower == '?') = (c == '?') := by
            rw [Bool.eq_iff_iff, beq_iff_eq, beq_iff_eq, toLower_eq_iff hquery]
          show ((u.toLower == 'u' || u.toLower == 'U')
              && (Text.isHexDigit c.toLower || c.toLower == '?'))
            = ((u == 'u' || u == 'U') && (Text.isHexDigit c || c == '?'))
          rw [hu, hc, Text.isHexDigit_toLower]
      · have hd' : d.toLower ≠ '+' := mt (toLower_eq_iff hplus).mp hd
        simp [Text.asciiLower_cons, startsRange, hd, hd']

/-- A range has no case: its digits are read as numbers. -/
theorem readRange_asciiLower (t : Text) :
    readRange (asciiLower t) = ((readRange t).1, asciiLower (readRange t).2) := by
  have hdash : Text.isLetter '-' = false := by decide
  have hquery (c : Char) : (c.toLower == '?') = (c == '?') := by
    rw [Bool.eq_iff_iff, beq_iff_eq, beq_iff_eq, toLower_eq_iff (by decide)]
  have hfilled (a b : Text) : Text.ofHexDigits (asciiLower a ++ b) = Text.ofHexDigits (a ++ b) := by
    rw [← Text.ofHexDigits_asciiLower (a ++ b), ← Text.ofHexDigits_asciiLower (asciiLower a ++ b),
      Text.asciiLower_append, Text.asciiLower_append, Text.asciiLower_asciiLower]
  have hmarks (a : Text) (d : Char) : (asciiLower a).map (fun _ => d) = a.map fun _ => d := by
    rw [asciiLower, List.map_map]
    rfl
  unfold readRange
  simp only [takeWhile_take_asciiLower Text.isHexDigit_toLower,
    takeWhile_take_asciiLower (p := (· == '?')) hquery, isEmpty_asciiLower, length_asciiLower,
    drop_asciiLower, hfilled, hmarks, Text.ofHexDigits_asciiLower]
  generalize t.drop ((t.take 6).takeWhile Text.isHexDigit).length = rest
  split
  · rfl
  · cases rest with
    | nil => rfl
    | cons c more =>
      by_cases hc : c = '-'
      · subst hc
        simp only [Text.asciiLower_cons, Text.toLower_eq_self hdash,
          takeWhile_take_asciiLower Text.isHexDigit_toLower, isEmpty_asciiLower, length_asciiLower,
          drop_asciiLower, Text.ofHexDigits_asciiLower]
        split <;> rfl
      · have hc' : c.toLower ≠ '-' := mt (toLower_eq_iff hdash).mp hc
        simp [Text.asciiLower_cons, hc, hc']

/-! ### Marks -/

theorem readStringTokens_folds {quote : Char} (hquote : Text.isLetter quote = false) (t : Text) :
    Folds (List.map folded) (readStringTokens quote) t := by
  refine (readString_folds hquote t).bind (g := afterString) fun a b u h => ?_
  obtain ⟨value, stringEnd⟩ := a
  obtain ⟨value', stringEnd'⟩ := b
  obtain ⟨hvalue, rfl⟩ : asciiLower value = asciiLower value' ∧ stringEnd = stringEnd' :=
    Prod.mk.inj h
  have hsame (closed : Bool) : folded (.string value closed) = folded (.string value' closed) :=
    congrArg (Token.string · closed) hvalue
  cases stringEnd with
  | closed => exact ⟨congrArg (· :: []) (hsame true), rfl⟩
  | unfinished => exact ⟨congrArg (· :: [Token.endInString]) (hsame false), rfl⟩
  | broken => exact ⟨rfl, rfl⟩

theorem skipComment_asciiLower (t : Text) : skipComment (asciiLower t) = asciiLower (skipComment t) := by
  have hstar : Text.isLetter '*' = false := by decide
  have hslash : Text.isLetter '/' = false := by decide
  fun_induction skipComment t with
  | case1 => rfl
  | case2 t => rfl
  | case3 c t hne ih =>
    rw [Text.asciiLower_cons, skipComment, ih]
    intro more hc heq
    cases t with
    | nil => cases heq
    | cons d t =>
      obtain ⟨hd, -⟩ := List.cons.inj heq
      exact hne t ((toLower_eq_iff hstar).mp hc) (by rw [(toLower_eq_iff hslash).mp hd])

theorem isPrefixOf_asciiLower {p : Text} (hp : ∀ c ∈ p, Text.isLetter c = false) (t : Text) :
    p.isPrefixOf (asciiLower t) = p.isPrefixOf t := by
  induction p generalizing t with
  | nil => rfl
  | cons c p ih =>
    obtain ⟨hc, hp⟩ := List.forall_mem_cons.mp hp
    cases t with
    | nil => rfl
    | cons d t =>
      have hfirst : (c == d.toLower) = (c == d) := by
        rw [Bool.eq_iff_iff, beq_iff_eq, beq_iff_eq, eq_comm, toLower_eq_iff hc, eq_comm]
      rw [Text.asciiLower_cons, List.isPrefixOf, List.isPrefixOf, hfirst, ih hp]

theorem startsName_asciiLower (t : Text) : startsName (asciiLower t) = startsName t := by
  cases t with
  | nil => rfl
  | cons c t =>
    rw [Text.asciiLower_cons, startsName, startsName, ← Text.asciiLower_cons, startsEscape_asciiLower,
      isNameChar_toLower]

/-- A token that its characters make up. -/
theorem alike_drop (tokens : List Token) (n : Nat) (t : Text) :
    TokensAlike (tokens, (asciiLower t).drop n) (tokens, t.drop n) :=
  ⟨rfl, drop_asciiLower n t⟩

theorem scanMark_folds (c : Char) (t : Text) (hc : Text.isLetter c = false) :
    Folds (List.map folded) (scanMark c) t := by
  have hmark {p : Text} (hp : ∀ c ∈ p, Text.isLetter c = false) {b : Bool} :
      (b && p.isPrefixOf (asciiLower t)) = true ↔ (b && p.isPrefixOf t) = true := by
    rw [isPrefixOf_asciiLower hp]
  obtain ⟨hname, hrest⟩ := readName_folds t
  unfold Folds scanMark
  refine .ite .rfl (fun _ => ?_) fun _ => ?_
  · refine .ite (by rw [startsIdent_asciiLower]) (fun _ => ?_) fun _ => ⟨rfl, rfl⟩
    exact ⟨congrArg (fun name => [Token.atKeyword name]) hname, hrest⟩
  refine .ite .rfl (fun _ => ?_) fun _ => ?_
  · refine .ite (by rw [startsName_asciiLower]) (fun _ => ?_) fun _ => ⟨rfl, rfl⟩
    rw [startsIdent_asciiLower]
    exact ⟨congrArg (fun name => [Token.hash name (startsIdent t)]) hname, hrest⟩
  refine .ite .rfl (fun _ => readStringTokens_folds hc t) fun _ => ?_
  refine .ite (hmark (by decide)) (fun _ => ⟨rfl, ?_⟩) fun _ => ?_
  · dsimp only
    rw [drop_asciiLower, skipComment_asciiLower]
  refine .ite (hmark (by decide)) (fun _ => alike_drop _ 3 t) fun _ => ?_
  refine .ite (hmark (by decide)) (fun _ => alike_drop _ 1 t) fun _ => ?_
  refine .ite (hmark (by decide)) (fun _ => alike_drop _ 1 t) fun _ => ?_
  split <;> exact ⟨rfl, rfl⟩

/-! ## All tokens -/

/-- **Step.** The first tokens of a text in lower case are those of the text, but for case. -/
theorem scan_alike (c : Char) (t : Text) : TokensAlike (scan c.toLower (asciiLower t)) (scan c t) := by
  unfold scan
  refine .ite (by rw [isSpace_toLower]) (fun hspace => ?_) fun _ => ?_
  · have hspaces : ∀ d ∈ c :: t.takeWhile isSpace, isSpace d = true :=
      List.forall_mem_cons.mpr ⟨hspace, fun d hd => List.mem_takeWhile_imp hd⟩
    have hrow : c.toLower :: (asciiLower t).takeWhile isSpace = c :: t.takeWhile isSpace := by
      have htake : (asciiLower t).takeWhile isSpace = asciiLower (t.takeWhile isSpace) :=
        Text.takeWhile_map isSpace_toLower t
      rw [htake, ← Text.asciiLower_cons, asciiLower_spaces hspaces]
    rw [hrow, dropWhile_asciiLower]
    exact ⟨rfl, rfl⟩
  refine .ite (by rw [← Text.asciiLower_cons, startsRange_asciiLower]) (fun _ => ?_) fun _ => ?_
  · rw [drop_asciiLower, readRange_asciiLower]
    exact ⟨rfl, rfl⟩
  refine .ite ?_ (fun _ => alike_drop _ 2 t) fun _ => ?_
  · have hdash : decide (c.toLower = '-') = decide (c = '-') :=
      decide_eq_decide.mpr (toLower_eq_iff (by decide))
    rw [isPrefixOf_asciiLower (by decide), hdash]
  refine .ite (by rw [← Text.asciiLower_cons, startsIdent_asciiLower]) (fun _ => ?_) fun hident => ?_
  · exact (readName_folds (c :: t)).bind ofName_alike
  rw [← Text.asciiLower_cons, splitNumeral?_asciiLower]
  cases splitNumeral? (c :: t) with
  | some found => exact ofNumeral_alike (Text.asciiLower_asciiLower _) found.2
  | none =>
    have hletter : Text.isLetter c = false := by
      rw [← Bool.not_eq_true]
      intro hletter
      have hstart : isNameStart c = true := by rw [isNameStart, hletter]; rfl
      exact hident (startsIdent_of_isNameStart hstart t)
    rw [Text.toLower_eq_self hletter]
    exact scanMark_folds c t hletter

/-- **Run.** The tokens of a text in lower case are those of the text, but for case. -/
theorem scanAll_asciiLower (t : Text) :
    (scanAll (asciiLower t)).map folded = (scanAll t).map folded := by
  fun_induction scanAll t with
  | case1 => exact congrArg (List.map folded) scanAll_nil
  | case2 c t ih =>
    obtain ⟨htokens, hrest⟩ := scan_alike c t
    rw [Text.asciiLower_cons, scanAll_cons, List.map_append, List.map_append, htokens, hrest, ih]

/-- What a character becomes in a normalized text has the same letters in any case. -/
theorem normalizeChar_toLower (c : Char) :
    (if c.toLower = '\r' || c.toLower.toNat = 0x0C then '\n'
      else if c.toLower.toNat = 0 then Char.ofNat 0xFFFD else c.toLower)
      = (if c = '\r' || c.toNat = 0x0C then '\n'
        else if c.toNat = 0 then Char.ofNat 0xFFFD else c).toLower := by
  rcases Text.toLower_cases c with heq | ⟨hlow, hhigh, hcode⟩
  · rw [heq]
    split
    · rfl
    split
    · rfl
    · exact heq.symm
  · have hne : c ≠ '\r' := fun h => by
      rw [h] at hlow
      exact absurd hlow (by decide)
    have hne' : c.toLower ≠ '\r' := mt (toLower_eq_iff (by decide)).mp hne
    have hcodes : c.toNat ≠ 0x0C ∧ c.toNat ≠ 0 ∧ c.toLower.toNat ≠ 0x0C ∧ c.toLower.toNat ≠ 0 := by
      omega
    simp only [hne, hne', hcodes, decide_false, Bool.or_self, Bool.false_eq_true, if_false]

theorem normalize_asciiLower (t : Text) : normalize (asciiLower t) = asciiLower (normalize t) := by
  have hbreak : Text.isLetter '\n' = false := by decide
  have hreturn : Text.isLetter '\r' = false := by decide
  fun_induction normalize t with
  | case1 => rfl
  | case2 rest ih => exact congrArg ('\n' :: ·) ih
  | case3 c rest hpair ih =>
    rw [Text.asciiLower_cons, Text.asciiLower_cons, ← ih, ← normalizeChar_toLower, normalize]
    intro more hc heq
    cases rest with
    | nil => cases heq
    | cons d rest =>
      obtain ⟨hd, -⟩ := List.cons.inj heq
      exact hpair rest ((toLower_eq_iff hreturn).mp hc) (by rw [(toLower_eq_iff hbreak).mp hd])

theorem numeral?_folded (token : Token) : token.folded.numeral? = token.numeral?.map asciiLower := by
  cases token <;> rfl

/-- Whether a number is too long does not depend on case. -/
theorem fault?_folded (token : Token) : token.folded.fault? = token.fault? := by
  unfold fault?
  rw [numeral?_folded, Option.bind_map]
  refine congrArg (Option.bind _) (funext fun text => ?_)
  have hsign : (splitSign (asciiLower text)).2 = (splitSign text).2.map Char.toLower :=
    congrArg Prod.snd (isTranscription_toLower.splitSign_map text)
  simp only [Function.comp_apply, hsign, Text.all_map isAsciiDigit_toLower, List.length_map]

theorem findSome?_fault?_folded (tokens : List Token) :
    (tokens.map folded).findSome? fault? = tokens.findSome? fault? := by
  rw [List.findSome?_map]
  exact congrArg (tokens.findSome? ·) (funext fault?_folded)

/-- **Texts.** The tokens of a text in lower case, or the same fault. -/
theorem ofText_asciiLower (t : Text) :
    (ofText (asciiLower t)).map (List.map folded) = (ofText t).map (List.map folded) := by
  unfold ofText
  dsimp only
  rw [normalize_asciiLower, ← findSome?_fault?_folded, scanAll_asciiLower, findSome?_fault?_folded]
  cases (scanAll (normalize t)).findSome? fault? with
  | some f => rfl
  | none => exact congrArg Except.ok (scanAll_asciiLower (normalize t))

end Token

end CssValues
