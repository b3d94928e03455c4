import CssValues.Proofs.Token.Scan

/-!
# Texts that are cut

Two texts may go on alike up to a character in front of which every token ends, or up to the end of
the second one (`Token.Cut`). What starts a token in the second text then does so in the first, and
numbers and names end alike.
-/

namespace CssValues.Token

/-! ## Texts that are cut -/

/-- A character in front of which every token ends. -/
def isBreaker (c : Char) : Bool := c == '/' || c == '"' || c == ';'

/-- The second text goes on like the first up to its end or to a breaker. -/
inductive Cut : Text → Text → Prop where
  | nil (t : Text) : Cut t []
  | stop {c : Char} (h : isBreaker c = true) (t u : Text) : Cut t (c :: u)
  | cons (c : Char) {t u : Text} (h : Cut t u) : Cut (c :: t) (c :: u)

namespace Cut

variable {t u : Text}

theorem append (s : Text) (h : Cut t u) : Cut (s ++ t) (s ++ u) := by
  induction s with
  | nil => exact h
  | cons c s ih => exact .cons c ih

theorem refl (t : Text) : Cut t t := by
  have happend := (Cut.nil []).append t
  rwa [List.append_nil] at happend

/-- What the second text starts with is no breaker, so the first one starts with it. -/
theorem cons_iff {c : Char} (hc : isBreaker c = false) :
    Cut t (c :: u) ↔ ∃ t', t = c :: t' ∧ Cut t' u := by
  constructor
  · intro h
    cases h with
    | stop h =>
      rw [hc] at h
      cases h
    | cons c h => exact ⟨_, rfl, h⟩
  · rintro ⟨t', rfl, h⟩
    exact .cons c h

theorem head?_false (h : Cut t u) {p : Char → Bool} (hp : ∀ c ∈ ['/', '"', ';'], p c = false)
    (ht : ∀ c ∈ t.head?, p c = false) : ∀ c ∈ u.head?, p c = false := by
  intro c hc
  cases h with
  | nil => cases hc
  | @stop d hd t u =>
    obtain rfl : d = c := Option.some.inj hc
    simp only [isBreaker, Bool.or_eq_true, beq_iff_eq] at hd
    rcases hd with (rfl | rfl) | rfl
    · exact hp '/' (by decide)
    · exact hp '"' (by decide)
    · exact hp ';' (by decide)
  | cons d h => exact ht c hc

/-- Characters that are no breakers stand in front of the first text too. -/
theorem isPrefixOf {p : Text} (hp : ∀ c ∈ p, isBreaker c = false) (h : Cut t u)
    (hu : p.isPrefixOf u = true) : p.isPrefixOf t = true := by
  induction p generalizing t u with
  | nil => rfl
  | cons c p ih =>
    obtain ⟨hc, hmore⟩ := List.forall_mem_cons.mp hp
    cases u with
    | nil => cases hu
    | cons d u =>
      obtain ⟨heq, hrest⟩ := Bool.and_eq_true_iff.mp hu
      obtain rfl := eq_of_beq heq
      obtain ⟨t', rfl, htail⟩ := (cons_iff hc).mp h
      exact Bool.and_eq_true_iff.mpr ⟨beq_self_eq_true c, ih hmore htail hrest⟩

theorem isPrefixOf_eq_false {p : Text} (hp : ∀ c ∈ p, isBreaker c = false) (h : Cut t u)
    (ht : p.isPrefixOf t = false) : p.isPrefixOf u = false :=
  Bool.eq_false_iff.mpr fun hu => Bool.eq_false_iff.mp ht (h.isPrefixOf hp hu)

end Cut

/-! ## What starts a token -/

theorem eq_of_isBreaker {c : Char} (h : isBreaker c = true) : c = '/' ∨ c = '"' ∨ c = ';' := by
  simpa [isBreaker, or_assoc] using h

section

variable {t u : Text}

/-- Where the second text starts an identifier, the first one does. -/
theorem Cut.startsIdent (h : Cut t u) (hslash : '\\' ∉ t) (hu : Token.startsIdent u = true) :
    Token.startsIdent t = true := by
  cases u with
  | nil => cases hu
  | cons c u =>
    cases hc : isBreaker c with
    | true =>
      rcases eq_of_isBreaker hc with rfl | rfl | rfl <;>
        rw [startsIdent_cons (by decide) (by decide)] at hu <;> cases hu
    | false =>
      obtain ⟨t, rfl, htail⟩ := (cons_iff hc).mp h
      have hne : c ≠ '\\' := fun heq => hslash (heq ▸ List.mem_cons_self)
      by_cases hdash : c = '-'
      · subst hdash
        cases u with
        | nil => cases hu
        | cons d u =>
          cases hd : isBreaker d with
          | true =>
            rcases eq_of_isBreaker hd with rfl | rfl | rfl <;>
              rw [startsIdent_dash (by decide)] at hu <;> cases hu
          | false =>
            obtain ⟨t, rfl, -⟩ := (cons_iff hd).mp htail
            have hne : d ≠ '\\' := fun heq => hslash (by simp [heq])
            rw [startsIdent_dash hne] at hu ⊢
            exact hu
      · rw [startsIdent_cons hdash hne] at hu ⊢
        exact hu

theorem Cut.startsIdent_eq_false (h : Cut t u) (hslash : '\\' ∉ t)
    (ht : Token.startsIdent t = false) : Token.startsIdent u = false :=
  Bool.eq_false_iff.mpr fun hu => Bool.eq_false_iff.mp ht (h.startsIdent hslash hu)

theorem Cut.startsRange (h : Cut t u) (hu : Token.startsRange u = true) :
    Token.startsRange t = true := by
  unfold Token.startsRange at hu
  split at hu
  · next c d u =>
    obtain ⟨hmark, hdigit⟩ := Bool.and_eq_true_iff.mp hu
    have hc : isBreaker c = false := by
      rcases (Bool.or_eq_true _ _).mp hmark with heq | heq <;> rw [eq_of_beq heq] <;> rfl
    have hd : isBreaker d = false := by
      cases hd : isBreaker d with
      | false => rfl
      | true => rcases eq_of_isBreaker hd with rfl | rfl | rfl <;> exact absurd hdigit (by decide)
    have hplus : isBreaker '+' = false := rfl
    obtain ⟨t, rfl, hmore⟩ := (cons_iff hc).mp h
    obtain ⟨t, rfl, hrest⟩ := (cons_iff hplus).mp hmore
    obtain ⟨t, rfl, -⟩ := (cons_iff hd).mp hrest
    exact hu
  · cases hu

theorem startsName_eq_head? (hslash : '\\' ∉ t) : startsName t = t.head?.any isNameChar := by
  cases t with
  | nil => rfl
  | cons c t =>
    have hne : c ≠ '\\' := fun heq => hslash (heq ▸ List.mem_cons_self)
    rw [startsName, startsEscape_of_ne hne, Bool.or_false]
    rfl

theorem Cut.startsName_eq_false (h : Cut t u) (hslash : '\\' ∉ t) (ht : startsName t = false) :
    startsName u = false := by
  cases u with
  | nil => rfl
  | cons c u =>
    have hhead := h.head?_false (p := isNameChar) (by decide) (fun d hd => by
      rw [startsName_eq_head? hslash, hd] at ht
      exact ht) c rfl
    have hne : c ≠ '\\' := by
      rintro rfl
      obtain ⟨t, rfl, -⟩ := (cons_iff (c := '\\') rfl).mp h
      exact hslash List.mem_cons_self
    rw [startsName, hhead, startsEscape_of_ne hne]
    rfl

end

/-! ## Numbers -/

theorem Cut.head?_ne {t u : Text} (h : Cut t u) {c : Char} (hc : isBreaker c = false)
    (ht : t.head? ≠ some c) : u.head? ≠ some c := by
  rintro hu
  cases u with
  | nil => cases hu
  | cons d u =>
    obtain rfl := Option.some.inj hu
    obtain ⟨t, rfl, -⟩ := (cons_iff hc).mp h
    exact ht rfl

theorem splitSign_of_head? {t : Text} (hplus : t.head? ≠ some '+') (hminus : t.head? ≠ some '-') :
    splitSign t = ([], t) := by
  unfold splitSign
  split
  · exact absurd rfl hplus
  · exact absurd rfl hminus
  · rfl

/-- A sign is there for both texts, or the second one is cut right there. -/
theorem Cut.splitSign {t u : Text} (h : Cut t u) : Cut (splitSign t).2 (splitSign u).2 := by
  cases h with
  | nil => exact .nil _
  | @stop c hc t u =>
    rcases eq_of_isBreaker hc with rfl | rfl | rfl <;> exact .stop rfl _ _
  | @cons c t u h =>
    by_cases hplus : c = '+'
    · subst hplus
      exact h
    by_cases hminus : c = '-'
    · subst hminus
      exact h
    rw [splitSign_of_head? (by simpa using hplus) (by simpa using hminus),
      splitSign_of_head? (by simpa using hplus) (by simpa using hminus)]
    exact .cons c h

theorem isBreaker_eq_false {p : Char → Bool} (hp : ∀ c ∈ ['/', '"', ';'], p c = false) {c : Char}
    (hc : p c = true) : isBreaker c = false := by
  cases hbreaker : isBreaker c with
  | false => rfl
  | true =>
    have hmem : c ∈ ['/', '"', ';'] := by simpa using eq_of_isBreaker hbreaker
    rw [hp c hmem] at hc
    cases hc

theorem Cut.takeWhile_ne_nil {t u : Text} (h : Cut t u) {p : Char → Bool}
    (hp : ∀ c ∈ ['/', '"', ';'], p c = false) (hu : (u.takeWhile p).isEmpty = false) :
    (t.takeWhile p).isEmpty = false := by
  cases u with
  | nil => cases hu
  | cons c u =>
    cases hc : p c with
    | false =>
      rw [List.takeWhile_cons_of_neg (by simp [hc])] at hu
      cases hu
    | true =>
      obtain ⟨t, rfl, -⟩ := (cons_iff (isBreaker_eq_false hp hc)).mp h
      rw [List.takeWhile_cons_of_pos hc]
      rfl

theorem Cut.fractionDigits_ne_nil {t u : Text} (h : Cut t u)
    (hu : (fractionDigits u).isEmpty = false) : (fractionDigits t).isEmpty = false := by
  unfold fractionDigits at hu
  split at hu
  · next u =>
    obtain ⟨t, rfl, hmore⟩ := (cons_iff (c := '.') rfl).mp h
    exact hmore.takeWhile_ne_nil (by decide) hu
  · cases hu

/-- What a reader takes off the front of a text it takes off again if what is behind is cut. -/
def IsSteady (reader : Text → Text × Text) : Prop :=
  ∀ t u, Cut (reader t).2 u → reader ((reader t).1 ++ u) = ((reader t).1, u)

theorem isSteady_splitSign : IsSteady splitSign := by
  intro t u h
  unfold splitSign at h ⊢
  split at h
  · rfl
  · rfl
  · next hplus hminus =>
    refine splitSign_of_head? (h.head?_ne rfl ?_) (h.head?_ne rfl ?_)
    · intro heq
      cases t with
      | nil => cases heq
      | cons c t => exact hplus t (by rw [Option.some.inj heq])
    · intro heq
      cases t with
      | nil => cases heq
      | cons c t => exact hminus t (by rw [Option.some.inj heq])

theorem isSteady_digits {p : Char → Bool} (hp : ∀ c ∈ ['/', '"', ';'], p c = false) :
    IsSteady fun t => (t.takeWhile p, t.dropWhile p) := by
  intro t u h
  have hall : ∀ c ∈ t.takeWhile p, p c = true := fun c hc => List.mem_takeWhile_imp hc
  have hhead := h.head?_false hp Text.head?_dropWhile
  dsimp only
  rw [Text.takeWhile_append_stop hall hhead, Text.dropWhile_append_stop hall hhead]

/-- Whether an exponent stands here. -/
def startsExponent : Text → Bool
  | [] => false
  | c :: rest => isExponentMark c && !((splitSign rest).2.takeWhile Text.isAsciiDigit).isEmpty

theorem splitExponent_of_startsExponent {t : Text} (h : startsExponent t = false) :
    splitExponent Text.isAsciiDigit t = ([], t) := by
  cases t with
  | nil => rfl
  | cons c rest => exact if_neg (by rw [startsExponent] at h; simp [h])

theorem Cut.startsExponent {t u : Text} (h : Cut t u) (hu : startsExponent u = true) :
    Token.startsExponent t = true := by
  cases u with
  | nil => cases hu
  | cons c u =>
    obtain ⟨hmark, hdigits⟩ := Bool.and_eq_true_iff.mp hu
    have hc := isBreaker_eq_false (p := isExponentMark) (by decide) hmark
    obtain ⟨t, rfl, hmore⟩ := (cons_iff hc).mp h
    have hnonempty := hmore.splitSign.takeWhile_ne_nil (p := Text.isAsciiDigit) (by decide)
      (by simpa using hdigits)
    simp [Token.startsExponent, hmark, hnonempty]

theorem isSteady_splitExponent : IsSteady (splitExponent Text.isAsciiDigit) := by
  intro t u h
  cases hstarts : startsExponent t with
  | false =>
    rw [splitExponent_of_startsExponent hstarts] at h ⊢
    refine splitExponent_of_startsExponent (Bool.eq_false_iff.mpr fun hu => ?_)
    rw [h.startsExponent hu] at hstarts
    cases hstarts
  | true =>
    cases t with
    | nil => cases hstarts
    | cons c rest =>
      have hexponent : splitExponent Text.isAsciiDigit (c :: rest)
          = (c :: (splitSign rest).1 ++ (splitSign rest).2.takeWhile Text.isAsciiDigit,
            (splitSign rest).2.dropWhile Text.isAsciiDigit) := if_pos hstarts
      rw [hexponent] at h ⊢
      have hdigits := isSteady_digits (p := Text.isAsciiDigit) (by decide) _ _ h
      have hcut := h.append ((splitSign rest).2.takeWhile Text.isAsciiDigit)
      rw [List.takeWhile_append_dropWhile] at hcut
      have hsign := isSteady_splitSign _ _ hcut
      dsimp only at hdigits
      obtain ⟨hmark, hnonempty⟩ := Bool.and_eq_true_iff.mp hstarts
      generalize (splitSign rest).2.takeWhile Text.isAsciiDigit = digits at *
      obtain ⟨htake, hdrop⟩ := Prod.mk.inj hdigits
      simp only [List.cons_append, List.append_assoc, splitExponent, hsign, htake, hdrop, hmark,
        hnonempty, Bool.and_self, if_true]

theorem splitNumeral?_eq_none_iff {t : Text} : splitNumeral? t = none
    ↔ ((splitSign t).2.takeWhile Text.isAsciiDigit).isEmpty = true
      ∧ (fractionDigits (splitSign t).2).isEmpty = true := by
  have hdigits := List.takeWhile_append_dropWhile (p := Text.isAsciiDigit) (l := (splitSign t).2)
  simp only [splitNumeral?]
  cases hwhole : ((splitSign t).2.takeWhile Text.isAsciiDigit).isEmpty with
  | false =>
    simp only [Bool.not_false, if_true, Bool.false_eq_true, false_and, iff_false]
    split <;> simp
  | true =>
    rw [List.isEmpty_iff.mp hwhole, List.nil_append] at hdigits
    rw [hdigits]
    cases (fractionDigits (splitSign t).2).isEmpty <;> simp

theorem Cut.splitNumeral?_eq_none {t u : Text} (h : Cut t u) (ht : splitNumeral? t = none) :
    splitNumeral? u = none := by
  obtain ⟨hwhole, hfraction⟩ := splitNumeral?_eq_none_iff.mp ht
  rw [splitNumeral?_eq_none_iff]
  constructor
  · by_contra hu
    have := h.splitSign.takeWhile_ne_nil (p := Text.isAsciiDigit) (by decide) (by simpa using hu)
    rw [hwhole] at this
    cases this
  · by_contra hu
    have := h.splitSign.fractionDigits_ne_nil (by simpa using hu)
    rw [hfraction] at this
    cases this

theorem exists_of_fractionDigits {t : Text} (h : (fractionDigits t).isEmpty = false) :
    ∃ more, t = '.' :: more ∧ fractionDigits t = more.takeWhile Text.isAsciiDigit := by
  unfold fractionDigits at h ⊢
  split at h
  · exact ⟨_, rfl, rfl⟩
  · cases h

/-- A number is read again if what is behind is cut. -/
theorem splitNumeral?_cut {t number rest u : Text} (h : splitNumeral? t = some (number, rest))
    (hcut : Cut rest u) : splitNumeral? (number ++ u) = some (number, u) := by
  have hdigit : ∀ c ∈ ['/', '"', ';'], Text.isAsciiDigit c = false := by decide
  -- the sign and the digits of the number, if what follows them is cut
  have hfront {tail : Text} (htail : Cut ((splitSign t).2.dropWhile Text.isAsciiDigit) tail) :
      splitSign ((splitSign t).1 ++ ((splitSign t).2.takeWhile Text.isAsciiDigit ++ tail))
        = ((splitSign t).1, (splitSign t).2.takeWhile Text.isAsciiDigit ++ tail) := by
    refine isSteady_splitSign _ _ ?_
    have happend := htail.append ((splitSign t).2.takeWhile Text.isAsciiDigit)
    rwa [List.takeWhile_append_dropWhile] at happend
  have hwhole {tail : Text} (htail : Cut ((splitSign t).2.dropWhile Text.isAsciiDigit) tail) :=
    isSteady_digits hdigit _ _ htail
  unfold splitNumeral? at h
  dsimp only at h hwhole
  generalize (splitSign t).2.takeWhile Text.isAsciiDigit = whole at h hfront hwhole
  generalize (splitSign t).2.dropWhile Text.isAsciiDigit = tail at h hfront hwhole
  generalize (splitSign t).1 = sign at h hfront
  split at h
  · next hfraction =>
    cases h
    obtain ⟨more, rfl, hdigits⟩ := exists_of_fractionDigits (t := tail) (by simpa using hfraction)
    rw [hdigits, List.drop_succ_cons, Text.drop_length_takeWhile] at hcut ⊢
    have hexponent := isSteady_splitExponent _ _ hcut
    have hmore := hcut.append (splitExponent Text.isAsciiDigit
      (more.dropWhile Text.isAsciiDigit)).1
    rw [splitExponent_append] at hmore
    obtain ⟨hfractionTake, -⟩ := Prod.mk.inj (isSteady_digits hdigit _ _ hmore)
    have htail := (hmore.append (more.takeWhile Text.isAsciiDigit)).cons '.'
    rw [List.takeWhile_append_dropWhile] at htail
    obtain ⟨htake, hdrop⟩ := Prod.mk.inj (hwhole htail)
    have hsign := hfront htail
    have hnonempty : (!(more.takeWhile Text.isAsciiDigit).isEmpty) = true := hfraction
    dsimp only at hfractionTake
    generalize splitExponent Text.isAsciiDigit (more.dropWhile Text.isAsciiDigit) = found at *
    generalize more.takeWhile Text.isAsciiDigit = digits at *
    have hdigits : fractionDigits ('.' :: (digits ++ (found.1 ++ u))) = digits := hfractionTake
    simp only [splitNumeral?, List.append_assoc, List.cons_append, hsign, htake, hdrop, hdigits,
      hnonempty, if_true, List.drop_succ_cons, List.drop_left, hexponent]
  · split at h
    · next hfraction hnonempty =>
      cases h
      have hexponent := isSteady_splitExponent _ _ hcut
      have htail := hcut.append (splitExponent Text.isAsciiDigit tail).1
      rw [splitExponent_append] at htail
      obtain ⟨htake, hdrop⟩ := Prod.mk.inj (hwhole htail)
      have hsign := hfront htail
      have hnone : (!(fractionDigits ((splitExponent Text.isAsciiDigit tail).1 ++ u)).isEmpty)
          = false := by
        by_contra hsome
        have := htail.fractionDigits_ne_nil (by simpa using hsome)
        simp [this] at hfraction
      simp only [splitNumeral?, List.append_assoc, hsign, htake, hdrop, hnone, hnonempty,
        Bool.false_eq_true, if_false, if_true, hexponent]
    · cases h

/-! ## Names -/

section

variable {t u : Text}

theorem readName_of_no_escape (hslash : '\\' ∉ t) :
    readName t = (t.takeWhile isNameChar, t.dropWhile isNameChar) := by
  refine readName_eq fun hhead => hslash ?_
  exact (List.dropWhile_suffix _).mem (List.mem_of_mem_head? hhead)

theorem readName_cut (hslash : '\\' ∉ t) (h : Cut (t.dropWhile isNameChar) u) :
    readName (t.takeWhile isNameChar ++ u) = (t.takeWhile isNameChar, u) := by
  have hchars : ∀ c ∈ ['/', '"', ';'], isNameChar c = false := by decide
  obtain ⟨htake, hdrop⟩ := Prod.mk.inj (isSteady_digits hchars t u h)
  have hhead : u.head? ≠ some '\\' := by
    refine h.head?_ne rfl fun hhead => hslash ?_
    exact (List.dropWhile_suffix _).mem (List.mem_of_mem_head? hhead)
  rw [readName_eq]
  · exact congr (congrArg Prod.mk htake) hdrop
  · rwa [hdrop]

end

end CssValues.Token
