import CssValues.Proofs.Token.Simple

/-!
# Scanning simple texts

A text of figures, blanks and parentheses is cut into simple tokens, which give the text back
(`Token.scanAll_simple`). A space ends a token, and so do a closing parenthesis and a semicolon;
what stands behind is scanned by itself (`Token.scanAll_append`). So is what stands behind a name and
a colon (`Token.scanAll_name`).
-/

namespace CssValues

namespace Token

/-- Nothing at the front of the text could continue a token. -/
def EndsToken (rest : Text) : Prop := ∀ c ∈ rest.head?, isSpace c = true ∨ c = ')' ∨ c = ';'

theorem endsToken_nil : EndsToken [] := nofun

section

variable {rest : Text}

theorem EndsToken.head?_false (h : EndsToken rest) {p : Char → Bool}
    (hp : ∀ c ∈ [' ', '\n', '\t', ')', ';'], p c = false) : ∀ c ∈ rest.head?, p c = false := by
  intro c hc
  have := h c hc
  simp only [isSpace, Bool.or_eq_true, beq_iff_eq] at this
  rcases this with ((rfl | rfl) | rfl) | rfl | rfl
  · exact hp ' ' (by decide)
  · exact hp '\n' (by decide)
  · exact hp '\t' (by decide)
  · exact hp ')' (by decide)
  · exact hp ';' (by decide)

theorem EndsToken.head?_ne (h : EndsToken rest) {d : Char}
    (hd : (isSpace d || d == ')' || d == ';') = false) : rest.head? ≠ some d := by
  intro hrest
  simp only [Bool.or_eq_false_iff, beq_eq_false_iff_ne] at hd
  rcases h d hrest with hspace | hclosing | hsemicolon
  · rw [hspace] at hd
    cases hd.1.1
  · exact hd.1.2 hclosing
  · exact hd.2 hsemicolon

/-! ## Numbers -/

theorem splitSign_append_end (h : EndsToken rest) (t : Text) :
    splitSign (t ++ rest) = ((splitSign t).1, (splitSign t).2 ++ rest) := by
  cases t with
  | nil =>
    unfold splitSign
    split
    · next heq => exact absurd (congrArg List.head? heq) (h.head?_ne (by decide))
    · next heq => exact absurd (congrArg List.head? heq) (h.head?_ne (by decide))
    · rfl
  | cons c t =>
    unfold splitSign
    split
    · next heq => obtain ⟨rfl, rfl⟩ := List.cons.inj heq; rfl
    · next heq => obtain ⟨rfl, rfl⟩ := List.cons.inj heq; rfl
    · next hplus hminus =>
      split
      · next heq => obtain ⟨rfl, rfl⟩ := List.cons.inj heq; exact (hplus _ rfl).elim
      · next heq => obtain ⟨rfl, rfl⟩ := List.cons.inj heq; exact (hminus _ rfl).elim
      · rfl

theorem splitExponent_append_end (h : EndsToken rest) (t : Text) :
    splitExponent Text.isAsciiDigit (t ++ rest)
      = ((splitExponent Text.isAsciiDigit t).1, (splitExponent Text.isAsciiDigit t).2 ++ rest) := by
  have hdigit := h.head?_false (p := Text.isAsciiDigit) (by decide)
  cases t with
  | nil =>
    cases rest with
    | nil => rfl
    | cons c rest =>
      have hmark : isExponentMark c = false := h.head?_false (by decide) c rfl
      simp [splitExponent, hmark]
  | cons c t =>
    simp only [List.cons_append, splitExponent, splitSign_append_end h,
      Text.takeWhile_append_end hdigit, Text.dropWhile_append_end hdigit]
    split <;> rfl

theorem fractionDigits_append_end (h : EndsToken rest) (t : Text) :
    fractionDigits (t ++ rest) = fractionDigits t := by
  have hdigit := h.head?_false (p := Text.isAsciiDigit) (by decide)
  cases t with
  | nil =>
    unfold fractionDigits
    split
    · next heq => exact absurd (congrArg List.head? heq) (h.head?_ne (by decide))
    · rfl
  | cons c t =>
    by_cases hc : c = '.'
    · subst hc
      exact Text.takeWhile_append_end hdigit
    · unfold fractionDigits
      split
      · next heq => exact absurd (List.cons.inj heq).1 hc
      · split
        · next heq => exact absurd (List.cons.inj heq).1 hc
        · rfl

/-- A fraction has a point in front of it. -/
theorem eq_of_fractionDigits {t : Text} (h : (fractionDigits t).isEmpty = false) :
    '.' :: fractionDigits t ++ t.drop ((fractionDigits t).length + 1) = t := by
  unfold fractionDigits at h ⊢
  split at h
  · next more =>
    rw [List.drop_succ_cons, List.cons_append, Text.drop_length_takeWhile,
      List.takeWhile_append_dropWhile]
  · cases h

theorem splitNumeral?_append_end (h : EndsToken rest) (t : Text) :
    splitNumeral? (t ++ rest) = (splitNumeral? t).map fun found => (found.1, found.2 ++ rest) := by
  have hdigit := h.head?_false (p := Text.isAsciiDigit) (by decide)
  simp only [splitNumeral?, splitSign_append_end h, Text.takeWhile_append_end hdigit,
    Text.dropWhile_append_end hdigit, fractionDigits_append_end h]
  generalize (splitSign t).2.dropWhile Text.isAsciiDigit = tail
  split
  · next hfraction =>
    have hlen := congrArg List.length (eq_of_fractionDigits (t := tail) (by simpa using hfraction))
    rw [List.length_append, List.length_cons] at hlen
    rw [List.drop_append_of_le_length (by omega)]
    simp only [splitExponent_append_end h, Option.map_some]
  · split
    · simp only [splitExponent_append_end h, Option.map_some]
    · rfl

theorem isNumberChar_of_isAsciiDigit (c : Char) (h : Text.isAsciiDigit c = true) :
    isNumberChar c = true :=
  isNumberChar_of_isDigit (Text.isDigit_of_isAsciiDigit h)

theorem fractionDigits_ascii (t : Text) : ∀ c ∈ fractionDigits t, isNumberChar c = true := by
  unfold fractionDigits
  split
  · exact fun c hc => isNumberChar_of_isAsciiDigit c (List.mem_takeWhile_imp hc)
  · simp

/-- A number is cut off the front of a text. -/
theorem splitNumeral?_chars {t number : Text} (h : splitNumeral? t = some (number, rest)) :
    number ++ rest = t ∧ ∀ c ∈ number, isNumberChar c = true := by
  have hsign := splitSign_append t
  have hdigits := List.takeWhile_append_dropWhile (p := Text.isAsciiDigit) (l := (splitSign t).2)
  have hwhole : ∀ c ∈ (splitSign t).1 ++ (splitSign t).2.takeWhile Text.isAsciiDigit,
      isNumberChar c = true := fun c hc => (List.mem_append.mp hc).elim (splitSign_chars t c)
    fun hc => isNumberChar_of_isAsciiDigit c (List.mem_takeWhile_imp hc)
  simp only [splitNumeral?] at h
  generalize (splitSign t).2.dropWhile Text.isAsciiDigit = tail at h hdigits
  generalize (splitSign t).2.takeWhile Text.isAsciiDigit = whole at h hdigits hwhole
  split at h
  · next hfraction =>
    cases h
    refine ⟨?_, fun c hc => ?_⟩
    · rw [List.append_assoc, splitExponent_append, List.append_assoc,
        eq_of_fractionDigits (by simpa using hfraction), List.append_assoc, hdigits, hsign]
    · rcases List.mem_append.mp hc with hc | hc
      · rcases List.mem_append.mp hc with hc | hc
        · exact hwhole c hc
        · rcases List.mem_cons.mp hc with rfl | hc
          · decide
          · exact fractionDigits_ascii tail c hc
      · exact splitExponent_chars isNumberChar_of_isAsciiDigit _ c hc
  · split at h
    · cases h
      refine ⟨?_, fun c hc => (List.mem_append.mp hc).elim (hwhole c)
        (splitExponent_chars isNumberChar_of_isAsciiDigit tail c)⟩
      rw [List.append_assoc, splitExponent_append, List.append_assoc, hdigits, hsign]
    · cases h

/-! ## Names -/

theorem readName_eq {t : Text} (h : (t.dropWhile isNameChar).head? ≠ some '\\') :
    readName t = (t.takeWhile isNameChar, t.dropWhile isNameChar) := by
  fun_induction readName t with
  | case1 => rfl
  | case2 c more hc ih =>
    rw [List.dropWhile_cons_of_pos hc] at h
    rw [ih h, List.takeWhile_cons_of_pos hc, List.dropWhile_cons_of_pos hc]
    rfl
  | case3 c more hc hescape =>
    have hne : c ≠ '\\' := by
      rintro rfl
      exact h (by rw [List.dropWhile_cons_of_neg hc]; rfl)
    rw [startsEscape_of_ne hne] at hescape
    cases hescape
  | case4 c more hc _ => rw [List.takeWhile_cons_of_neg hc, List.dropWhile_cons_of_neg hc]

theorem readName_append_end (h : EndsToken rest) {t : Text} (hslash : '\\' ∉ t) :
    readName (t ++ rest) = (t.takeWhile isNameChar, t.dropWhile isNameChar ++ rest) := by
  have hname := h.head?_false (p := isNameChar) (by decide)
  rw [readName_eq, Text.takeWhile_append_end hname, Text.dropWhile_append_end hname]
  rw [Text.dropWhile_append_end hname, List.head?_append]
  cases hhead : (t.dropWhile isNameChar).head? with
  | none => exact h.head?_ne (by decide)
  | some c =>
    rintro ⟨⟩
    exact hslash ((List.dropWhile_suffix _).mem (List.mem_of_mem_head? hhead))

theorem startsIdent_append_end (h : EndsToken rest) {t : Text} (hslash : '\\' ∉ t) :
    startsIdent (t ++ rest) = startsIdent t := by
  have hstart := h.head?_false (p := isNameStart) (by decide)
  cases t with
  | nil =>
    cases rest with
    | nil => rfl
    | cons c rest =>
      rw [List.nil_append, startsIdent_cons]
      · exact hstart c rfl
      · rintro rfl
        exact absurd rfl (h.head?_ne (by decide))
      · rintro rfl
        exact absurd rfl (h.head?_ne (by decide))
  | cons c t =>
    have hc : c ≠ '\\' := fun heq => hslash (heq ▸ List.mem_cons_self)
    by_cases hdash : c = '-'
    · subst hdash
      cases t with
      | nil =>
        cases rest with
        | nil => rfl
        | cons d rest =>
          rw [List.singleton_append, startsIdent_dash, hstart d rfl, Bool.or_false]
          · rw [beq_eq_false_iff_ne.mpr]
            · rfl
            · rintro rfl
              exact absurd rfl (h.head?_ne (by decide))
          · rintro rfl
            exact absurd rfl (h.head?_ne (by decide))
      | cons d t =>
        have hd : d ≠ '\\' := fun heq => hslash (by simp [heq])
        rw [List.cons_append, List.cons_append, startsIdent_dash hd, startsIdent_dash hd]
    · rw [List.cons_append, startsIdent_cons hdash hc, startsIdent_cons hdash hc]

/-- The name at the front of a text that starts an identifier. -/
theorem isName_takeWhile {t : Text} (hslash : '\\' ∉ t) (h : startsIdent t = true) :
    IsName (t.takeWhile isNameChar) := by
  refine ⟨?_, fun c hc => List.mem_takeWhile_imp hc⟩
  cases t with
  | nil => cases h
  | cons c t =>
    have hc : c ≠ '\\' := fun heq => hslash (heq ▸ List.mem_cons_self)
    by_cases hdash : c = '-'
    · subst hdash
      cases t with
      | nil => cases h
      | cons d t =>
        have hd : d ≠ '\\' := fun heq => hslash (by simp [heq])
        have hname : isNameChar d = true := by
          rw [startsIdent_dash hd] at h
          rcases (Bool.or_eq_true _ _).mp h with h | h
          · rw [eq_of_beq h]
            decide
          · simp [isNameChar, h]
        rw [List.takeWhile_cons_of_pos (by decide), List.takeWhile_cons_of_pos hname,
          startsIdent_dash hd, ← startsIdent_dash (t := t) hd, h]
    · rw [startsIdent_cons hdash hc] at h
      rw [List.takeWhile_cons_of_pos (by simp [isNameChar, h]), startsIdent_cons hdash hc, h]

/-! ## One token -/

/-- A text of figures, blanks and parentheses. -/
def IsTame (t : Text) : Prop := ∀ c ∈ t, isTame c = true

theorem IsTame.not_mem {t : Text} (h : IsTame t) {c : Char} (hc : c ∈ wildChars) : c ∉ t :=
  fun hmem => not_mem_wildChars (h c hmem) hc

theorem startsRange_eq_false {c : Char} {t : Text} (hsmall : c ≠ 'u') (hcapital : c ≠ 'U') :
    startsRange (c :: t) = false := by
  unfold startsRange
  split
  · next heq =>
    obtain ⟨rfl, -⟩ := List.cons.inj heq
    simp [hsmall, hcapital]
  · rfl

/-- Without an angle bracket there is no end of an HTML comment. -/
theorem startsArrow_eq_false (h : EndsToken rest) {t : Text} (ht : '>' ∉ t) :
    ['-', '>'].isPrefixOf (t ++ rest) = false := by
  rw [← Bool.not_eq_true, List.isPrefixOf_iff_prefix]
  rintro ⟨more, heq⟩
  cases t with
  | nil =>
    rw [List.nil_append] at heq
    exact h.head?_ne (d := '-') (by decide) (by rw [← heq]; rfl)
  | cons c t =>
    cases t with
    | nil =>
      obtain ⟨-, hrest⟩ := List.cons.inj heq
      exact h.head?_ne (d := '>') (by decide) (congrArg List.head? hrest).symm
    | cons d t =>
      obtain ⟨-, hmore⟩ := List.cons.inj heq
      obtain ⟨rfl, -⟩ := List.cons.inj hmore
      simp at ht

/-- A character that starts neither name nor number is a token of its own. -/
theorem scanMark_simple {c : Char} (hc : isTame c = true) :
    ∃ token : Token, token.IsSimple ∧ token.source = [c] ∧ ∀ t, scanMark c t = ([token], t) := by
  have hwild : ∀ d ∈ wildChars, c ≠ d := fun d hd heq => not_mem_wildChars hc (heq ▸ hd)
  by_cases hopening : c = '('
  · exact ⟨.opening .round, .opening, by rw [hopening]; rfl, fun t => by rw [hopening]; rfl⟩
  by_cases hclosing : c = ')'
  · exact ⟨.closing .round, .closing, by rw [hclosing]; rfl, fun t => by rw [hclosing]; rfl⟩
  refine ⟨.literal [c], .literal ?_, rfl, fun t => ?_⟩
  · simpa [isTame, hopening, hclosing] using hc
  · have hquote : c.toNat ≠ 0x27 := by
      intro heq
      have := hwild (Char.ofNat 0x27) (by decide)
      rw [← heq, Char.ofNat_toNat] at this
      exact this rfl
    have hno : Bracket.ofOpening? c = none := by
      rw [Bracket.ofOpening?, List.find?_eq_none]
      intro b _ hb
      cases b with
      | round => exact hopening (of_decide_eq_true hb).symm
      | square => exact hwild '[' (by decide) (of_decide_eq_true hb).symm
      | curly => exact hwild (Char.ofNat 0x7B) (by decide) (of_decide_eq_true hb).symm
    have hnc : Bracket.ofClosing? c = none := by
      rw [Bracket.ofClosing?, List.find?_eq_none]
      intro b _ hb
      cases b with
      | round => exact hclosing (of_decide_eq_true hb).symm
      | square => exact hwild ']' (by decide) (of_decide_eq_true hb).symm
      | curly => exact hwild (Char.ofNat 0x7D) (by decide) (of_decide_eq_true hb).symm
    unfold scanMark
    simp [hwild '@' (by decide), hwild '#' (by decide), hwild '"' (by decide), hquote,
      hwild '/' (by decide), hwild '<' (by decide), hwild '|' (by decide), hwild '~' (by decide),
      hwild '^' (by decide), hwild '$' (by decide), hwild '*' (by decide), hno, hnc]

theorem ofName_simple {name : Text} (hname : IsName name)
    (hurl : Text.asciiLower name ≠ urlName) (tail : Text) :
    ∃ (token : Token) (tail' : Text), token.IsSimple ∧ token.source ++ tail' = name ++ tail
      ∧ ∀ rest, EndsToken rest → ofName name (tail ++ rest) = ([token], tail' ++ rest) := by
  by_cases hparen : tail.head? = some '('
  · obtain ⟨more, rfl⟩ : ∃ more, tail = '(' :: more := by
      cases tail with
      | nil => cases hparen
      | cons c more => exact ⟨more, by cases hparen; rfl⟩
    refine ⟨.function name, more, .function hname, by simp [source], fun rest _ => ?_⟩
    simp [ofName, hurl]
  · refine ⟨.ident name, tail, .ident hname, rfl, fun rest hrest => ?_⟩
    unfold ofName
    split
    · next heq =>
      cases tail with
      | nil => exact absurd (congrArg List.head? heq) (hrest.head?_ne (by decide))
      | cons c more => exact absurd (congrArg some (List.cons.inj heq).1) hparen
    · rfl

theorem ofNumeral_simple {number tail : Text} (hnumber : ∀ c ∈ number, isFigure c = true)
    (hslash : '\\' ∉ tail) :
    ∃ (token : Token) (tail' : Text), token.IsSimple ∧ token.source ++ tail' = number ++ tail
      ∧ ∀ rest, EndsToken rest → ofNumeral number (tail ++ rest) = ([token], tail' ++ rest) := by
  by_cases hident : startsIdent tail = true
  · refine ⟨.dimension number (tail.takeWhile isNameChar), tail.dropWhile isNameChar,
      .dimension hnumber (isName_takeWhile hslash hident), ?_, fun rest hrest => ?_⟩
    · rw [source, List.append_assoc, List.takeWhile_append_dropWhile]
    · unfold ofNumeral
      rw [startsIdent_append_end hrest hslash, if_pos hident, readName_append_end hrest hslash]
  by_cases hpercent : tail.head? = some '%'
  · obtain ⟨more, rfl⟩ : ∃ more, tail = '%' :: more := by
      cases tail with
      | nil => cases hpercent
      | cons c more => exact ⟨more, by cases hpercent; rfl⟩
    refine ⟨.percentage number, more, .percentage hnumber, List.append_assoc number ['%'] more,
      fun rest hrest => ?_⟩
    unfold ofNumeral
    rw [startsIdent_append_end hrest hslash, if_neg hident]
    rfl
  · refine ⟨.number number, tail, .number hnumber, rfl, fun rest hrest => ?_⟩
    unfold ofNumeral
    rw [startsIdent_append_end hrest hslash, if_neg hident]
    split
    · next heq =>
      cases tail with
      | nil => exact absurd (congrArg List.head? heq) (hrest.head?_ne (by decide))
      | cons c more => exact absurd (congrArg some (List.cons.inj heq).1) hpercent
    · rfl

/-- What is neither space, nor range, nor arrow is a name, a number or a mark. -/
theorem scan_eq {c : Char} {t : Text} (hspace : isSpace c = false)
    (hrange : startsRange (c :: t) = false) (harrow : (c = '-' && ['-', '>'].isPrefixOf t) = false) :
    scan c t = if startsIdent (c :: t) then ofName (readName (c :: t)).1 (readName (c :: t)).2
      else match splitNumeral? (c :: t) with
        | some (text, rest) => ofNumeral text rest
        | none => scanMark c t := by
  unfold scan
  rw [if_neg (by simp [hspace]), if_neg (by simp [hrange])]
  exact if_neg (by simp [harrow])

/-- The token at the front of a tame text. What stands behind a space or a closing parenthesis has no
part in it. -/
theorem scan_simple {c : Char} {t : Text} (htame : IsTame (c :: t)) (hspace : isSpace c = false) :
    ∃ (token : Token) (tail : Text), token.IsSimple ∧ token.source ++ tail = c :: t
      ∧ ∀ rest, EndsToken rest → scan c (t ++ rest) = ([token], tail ++ rest) := by
  have hslash : '\\' ∉ c :: t := htame.not_mem (by decide)
  have hrange (t : Text) : startsRange (c :: t) = false := by
    refine startsRange_eq_false ?_ ?_
    · rintro rfl
      exact htame.not_mem (c := 'u') (by decide) List.mem_cons_self
    · rintro rfl
      exact htame.not_mem (c := 'U') (by decide) List.mem_cons_self
  have harrow {rest : Text} (hrest : EndsToken rest) :
      ['-', '>'].isPrefixOf (t ++ rest) = false :=
    startsArrow_eq_false hrest fun hmem =>
      htame.not_mem (c := '>') (by decide) (List.mem_cons_of_mem _ hmem)
  have hscan {rest : Text} (hrest : EndsToken rest) :=
    scan_eq hspace (hrange (t ++ rest)) (by rw [harrow hrest, Bool.and_false])
  by_cases hident : startsIdent (c :: t) = true
  · have hurl : Text.asciiLower ((c :: t).takeWhile isNameChar) ≠ urlName := by
      intro heq
      have hu : 'u' ∈ Text.asciiLower ((c :: t).takeWhile isNameChar) := by rw [heq]; decide
      obtain ⟨d, hd, hlower⟩ := List.mem_map.mp hu
      have hmem := (List.takeWhile_prefix isNameChar).mem hd
      rcases Text.eq_of_toLower_eq_u hlower with rfl | rfl
      · exact htame.not_mem (by decide) hmem
      · exact htame.not_mem (by decide) hmem
    obtain ⟨token, tail, hsimple, hsource, hname⟩ :=
      ofName_simple (isName_takeWhile hslash hident) hurl ((c :: t).dropWhile isNameChar)
    rw [List.takeWhile_append_dropWhile] at hsource
    refine ⟨token, tail, hsimple, hsource, fun rest hrest => ?_⟩
    rw [hscan hrest, ← List.cons_append, if_pos (by rw [startsIdent_append_end hrest hslash, hident]),
      readName_append_end hrest hslash, hname rest hrest]
  cases hnumeral : splitNumeral? (c :: t) with
  | some found =>
    obtain ⟨number, tail⟩ := found
    obtain ⟨hsplit, hnumber⟩ := splitNumeral?_chars hnumeral
    have htail : '\\' ∉ tail := fun hmem => hslash (hsplit ▸ List.mem_append_right _ hmem)
    obtain ⟨token, tail', hsimple, hsource, hnumeral'⟩ :=
      ofNumeral_simple (fun c hc => isFigure_of_isNumberChar (hnumber c hc)) htail
    refine ⟨token, tail', hsimple, hsource.trans hsplit, fun rest hrest => ?_⟩
    rw [hscan hrest, ← List.cons_append,
      if_neg (by rw [startsIdent_append_end hrest hslash]; exact hident),
      splitNumeral?_append_end hrest, hnumeral]
    exact hnumeral' rest hrest
  | none =>
    obtain ⟨token, hsimple, hsource, hmark⟩ := scanMark_simple (htame c List.mem_cons_self)
    refine ⟨token, t, hsimple, by rw [hsource]; rfl, fun rest hrest => ?_⟩
    rw [hscan hrest, ← List.cons_append,
      if_neg (by rw [startsIdent_append_end hrest hslash]; exact hident),
      splitNumeral?_append_end hrest, hnumeral]
    exact hmark _

/-! ## All tokens -/

theorem scanAll_nil : scanAll [] = [] := by rw [scanAll]

theorem scanAll_cons (c : Char) (t : Text) :
    scanAll (c :: t) = (scan c t).1 ++ scanAll (scan c t).2 := by rw [scanAll]

theorem scan_space {c : Char} (h : isSpace c = true) (t : Text) :
    scan c t = ([.whitespace (c :: t.takeWhile isSpace)], t.dropWhile isSpace) := by
  unfold scan
  rw [if_pos h]

theorem scanAll_space {c : Char} (h : isSpace c = true) (t : Text) :
    scanAll (c :: t) = .whitespace (c :: t.takeWhile isSpace) :: scanAll (t.dropWhile isSpace) := by
  rw [scanAll_cons, scan_space h]
  rfl

/-- The spaces in front of a text make up one token at most. -/
theorem scanAll_eq_or (t : Text) :
    scanAll t = scanAll (t.dropWhile isSpace)
      ∨ ∃ s, (∀ c ∈ s, isSpace c = true)
        ∧ scanAll t = .whitespace s :: scanAll (t.dropWhile isSpace) := by
  cases t with
  | nil => exact .inl rfl
  | cons c t =>
    by_cases hc : isSpace c = true
    · rw [List.dropWhile_cons_of_pos hc]
      refine .inr ⟨_, ?_, scanAll_space hc t⟩
      exact List.forall_mem_cons.mpr ⟨hc, fun d hd => List.mem_takeWhile_imp hd⟩
    · rw [List.dropWhile_cons_of_neg hc]
      exact .inl rfl

/-- The tokens of a tame text are simple, and what they were read from is the text. -/
theorem scanAll_simple {t : Text} (htame : IsTame t) :
    (∀ token ∈ scanAll t, token.IsSimple) ∧ (scanAll t).flatMap source = t := by
  fun_induction scanAll t with
  | case1 => exact ⟨nofun, rfl⟩
  | case2 c t ih =>
    by_cases hspace : isSpace c = true
    · rw [scan_space hspace] at ih ⊢
      obtain ⟨hsimple, hsource⟩ := ih fun d hd =>
        htame d (List.mem_cons_of_mem _ ((List.dropWhile_suffix _).mem hd))
      refine ⟨List.forall_mem_cons.mpr ⟨.whitespace ?_, hsimple⟩, ?_⟩
      · exact List.forall_mem_cons.mpr ⟨hspace, fun d hd => List.mem_takeWhile_imp hd⟩
      · rw [List.singleton_append, List.flatMap_cons, hsource]
        exact congrArg (c :: ·) List.takeWhile_append_dropWhile
    · obtain ⟨token, tail, htoken, hfront, hscan⟩ :=
        scan_simple htame (Bool.eq_false_iff.mpr hspace)
      have hone := hscan [] endsToken_nil
      rw [List.append_nil, List.append_nil] at hone
      rw [hone] at ih ⊢
      obtain ⟨hsimple, hsource⟩ := ih fun d hd => htame d (hfront ▸ List.mem_append_right _ hd)
      refine ⟨List.forall_mem_cons.mpr ⟨htoken, hsimple⟩, ?_⟩
      rw [List.singleton_append, List.flatMap_cons, hsource, hfront]

/-- What stands behind a space or a closing parenthesis is scanned by itself. -/
theorem scanAll_append (h : EndsToken rest) {t : Text} (htame : IsTame t)
    (hlast : ∀ c ∈ t.getLast?, isSpace c = false) :
    scanAll (t ++ rest) = scanAll t ++ scanAll rest := by
  fun_induction scanAll t with
  | case1 => rfl
  | case2 c t ih =>
    by_cases hspace : isSpace c = true
    · -- the spaces end inside `t`, since `t` does not end in a space
      obtain ⟨d, more, hdrop⟩ : ∃ d more, t.dropWhile isSpace = d :: more := by
        cases hdrop : t.dropWhile isSpace with
        | cons d more => exact ⟨d, more, rfl⟩
        | nil =>
          have hall : ∀ d ∈ c :: t, isSpace d = true :=
            List.forall_mem_cons.mpr ⟨hspace, List.dropWhile_eq_nil_iff.mp hdrop⟩
          have hyes := hall _ (List.getLast_mem (List.cons_ne_nil c t))
          have hno := hlast _ (List.getLast?_eq_some_getLast (List.cons_ne_nil c t))
          rw [hyes] at hno
          cases hno
      have hd : ∀ e ∈ (d :: more ++ rest).head?, isSpace e = false := by
        rintro e ⟨⟩
        exact Text.head?_dropWhile d (by rw [hdrop]; rfl)
      have ht : t ++ rest = t.takeWhile isSpace ++ (d :: more ++ rest) := by
        rw [← hdrop, ← List.append_assoc, List.takeWhile_append_dropWhile]
      rw [scan_space hspace] at ih ⊢
      rw [List.cons_append, scanAll_space hspace, ht,
        Text.takeWhile_append_stop (fun e he => List.mem_takeWhile_imp he) hd,
        Text.dropWhile_append_stop (fun e he => List.mem_takeWhile_imp he) hd, ← hdrop, ih]
      · rfl
      · exact fun e he => htame e (List.mem_cons_of_mem _ ((List.dropWhile_suffix _).mem he))
      · intro e he
        refine hlast e (List.mem_getLast?_cons ?_)
        rw [← List.takeWhile_append_dropWhile (p := isSpace) (l := t), List.getLast?_append, he]
        rfl
    · obtain ⟨token, tail, -, hfront, hscan⟩ :=
        scan_simple htame (Bool.eq_false_iff.mpr hspace)
      have hone := hscan [] endsToken_nil
      rw [List.append_nil, List.append_nil] at hone
      rw [hone] at ih ⊢
      rw [List.cons_append, scanAll_cons, hscan rest h]
      dsimp only
      rw [ih, List.append_assoc]
      · exact fun d hd => htame d (hfront ▸ List.mem_append_right _ hd)
      · intro d hd
        refine hlast d ?_
        rw [← hfront, List.getLast?_append, hd]
        rfl

end

/-! ## A name and a colon -/

theorem startsRange_second {c d : Char} {t : Text} (h : d ≠ '+') :
    startsRange (c :: d :: t) = false := by
  unfold startsRange
  split
  · next heq => exact absurd (List.cons.inj (List.cons.inj heq).2).1 h
  · rfl

section

variable {name rest : Text} (hstop : ∀ d ∈ rest.head?, isNameChar d = false)
  (hfree : ∀ d ∈ rest.head?, d ∉ ['\\', '+', '>'])

include hstop hfree

theorem startsArrow_name (h : ∀ c ∈ name, isNameChar c = true) :
    ['-', '>'].isPrefixOf (name ++ rest) = false := by
  rw [← Bool.not_eq_true, List.isPrefixOf_iff_prefix]
  rintro ⟨more, heq⟩
  match name with
  | [] =>
    obtain rfl : '-' :: '>' :: more = rest := heq
    cases hstop '-' rfl
  | [c] =>
    obtain rfl : '>' :: more = rest := (List.cons.inj heq).2
    exact hfree '>' rfl (by decide)
  | c :: d :: name =>
    have hd := h d (by simp)
    rw [← (List.cons.inj (List.cons.inj heq).2).1] at hd
    cases hd

/-- A name is read up to its end. -/
theorem scan_name {c : Char} (h : IsName (c :: name)) :
    scan c (name ++ rest) = ofName (c :: name) rest := by
  obtain ⟨hc, hname⟩ := List.forall_mem_cons.mp h.2
  have hrange : startsRange (c :: (name ++ rest)) = false := by
    cases name with
    | cons d name =>
      refine startsRange_second ?_
      rintro rfl
      cases hname '+' List.mem_cons_self
    | nil =>
      cases rest with
      | nil => rfl
      | cons d rest =>
        refine startsRange_second ?_
        rintro rfl
        exact hfree '+' rfl (by decide)
  have harrow : (c = '-' && ['-', '>'].isPrefixOf (name ++ rest)) = false := by
    rw [startsArrow_name hstop hfree hname, Bool.and_false]
  have hdrop := Text.dropWhile_append_stop h.2 hstop
  have hread := readName_eq (t := c :: name ++ rest)
    (by rw [hdrop]; exact fun heq => hfree '\\' heq (by decide))
  rw [hdrop, Text.takeWhile_append_stop h.2 hstop] at hread
  rw [scan_eq (isSpace_of_isNameChar hc) hrange harrow]
  exact (if_pos (h.startsIdent_append rest)).trans (by rw [← List.cons_append, hread])

end

/-- A name and a colon behind it are tokens of their own. -/
theorem scanAll_name {name : Text} (h : IsName name) (rest : Text) :
    scanAll (name ++ ':' :: rest) = .ident name :: .literal [':'] :: scanAll rest := by
  have hcolon : scan ':' rest = ([.literal [':']], rest) := by
    have hrange : startsRange (':' :: rest) = false := startsRange_eq_false (by decide) (by decide)
    have hstart : startsIdent (':' :: rest) = false := rfl
    rw [scan_eq (by decide) hrange rfl, hstart]
    rfl
  cases name with
  | nil => cases h.1
  | cons c name =>
    have hscan : scan c (name ++ ':' :: rest) = ofName (c :: name) (':' :: rest) :=
      scan_name (by rintro d ⟨⟩; rfl) (by rintro d ⟨⟩; decide) h
    rw [List.cons_append, scanAll_cons, hscan]
    show .ident (c :: name) :: scanAll (':' :: rest) = _
    rw [scanAll_cons, hcolon]
    rfl

/-- The tokens of a name, a colon, a space and what stands behind them. -/
theorem scanAll_property {name value : Text} (hname : IsName name)
    (hfirst : ∀ c ∈ value.head?, isSpace c = false) :
    scanAll (name ++ ':' :: ' ' :: value)
      = .ident name :: .literal [':'] :: .whitespace [' '] :: scanAll value := by
  have hnone : ∀ c ∈ ([] : Text), isSpace c = true := List.forall_mem_nil _
  have htake := Text.takeWhile_append_stop hnone hfirst
  have hdrop := Text.dropWhile_append_stop hnone hfirst
  rw [List.nil_append] at htake hdrop
  rw [scanAll_name hname, scanAll_space rfl, htake, hdrop]

end Token

end CssValues
