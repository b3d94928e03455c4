import CssValues.Proofs.Box

/-!
# Values that stay whole

A number in ASCII that has a digit behind every point is whole with its unit. So are the lengths and
percentages of such numbers (`Length.isWhole_of_read`), and the calculations of two of them with
spaces around the operator (`IsTerm.isWhole_calculation`).
-/

namespace CssValues

open Token (scanAll normalize)

/-! ## Numbers in ASCII -/

/-- A number in ASCII that has a digit behind every point. -/
structure IsPlainNumber (number : Text) : Prop where
  ascii : ∀ c ∈ number, c.toNat ≤ 0x7F
  point : ∀ s u, number = s ++ '.' :: u → ∃ c ∈ u.head?, Text.isDigit c = true

namespace Token

variable {t : Text}

theorem isAsciiDigit_eq_false {c : Char} (h : Text.isDigit c = false) :
    Text.isAsciiDigit c = false := by
  cases hascii : Text.isAsciiDigit c with
  | false => rfl
  | true =>
    rw [Text.isDigit_of_isAsciiDigit hascii] at h
    cases h

/-- Digits of any script that are in ASCII are the ASCII digits. -/
theorem splitDigits_eq (h : ∀ c ∈ t.takeWhile Text.isDigit, c.toNat ≤ 0x7F) :
    t.takeWhile Text.isAsciiDigit = t.takeWhile Text.isDigit
      ∧ t.dropWhile Text.isAsciiDigit = t.dropWhile Text.isDigit := by
  have hdigits : ∀ c ∈ t.takeWhile Text.isDigit, Text.isAsciiDigit c = true := by
    intro c hc
    rcases Text.isAsciiDigit_or_of_isDigit (List.mem_takeWhile_imp hc) with hascii | hbeyond
    · exact hascii
    · have := h c hc
      omega
  have hstop : ∀ c ∈ (t.dropWhile Text.isDigit).head?, Text.isAsciiDigit c = false :=
    fun c hc => isAsciiDigit_eq_false (Text.head?_dropWhile c hc)
  have htake := Text.takeWhile_append_stop hdigits hstop
  have hdrop := Text.dropWhile_append_stop hdigits hstop
  rw [List.takeWhile_append_dropWhile] at htake hdrop
  exact ⟨htake, hdrop⟩

theorem splitExponent_eq (h : ∀ c ∈ (splitExponent Text.isDigit t).1, c.toNat ≤ 0x7F) :
    splitExponent Text.isAsciiDigit t = splitExponent Text.isDigit t := by
  cases t with
  | nil => rfl
  | cons c t =>
    cases hmark : isExponentMark c with
    | false => simp [splitExponent, hmark]
    | true =>
      have hdigits : ∀ d ∈ (splitSign t).2.takeWhile Text.isDigit, d.toNat ≤ 0x7F := by
        intro d hd
        refine h d ?_
        have hne : ((splitSign t).2.takeWhile Text.isDigit).isEmpty = false := by
          simpa using List.ne_nil_of_mem hd
        simp [splitExponent, hmark, hne, hd]
      simp only [splitExponent, (splitDigits_eq hdigits).1, (splitDigits_eq hdigits).2]

theorem isDigit_head?_splitExponent {digit : Char → Bool} :
    ∀ c ∈ (splitExponent digit t).1.head?, Text.isDigit c = false := by
  cases t with
  | nil => nofun
  | cons c t =>
    unfold splitExponent
    dsimp only
    split
    · next hmark =>
      rintro d ⟨⟩
      rcases (Bool.or_eq_true _ _).mp (Bool.and_eq_true_iff.mp hmark).1 with heq | heq
      · rw [eq_of_beq heq]
        decide
      · rw [eq_of_beq heq]
        decide
    · nofun

/-- The number that a token has is the number that is read, if that is a plain one. -/
theorem splitNumeral?_eq {number rest : Text} (h : splitNumber? t = some (number, rest))
    (hplain : IsPlainNumber number) : splitNumeral? t = some (number, rest) := by
  unfold splitNumber? splitUnsigned? at h
  dsimp only at h
  split at h
  · cases h
  next unsigned rest' hunsigned =>
  cases h
  split at hunsigned
  · cases hunsigned
  next m tail hm =>
  cases hunsigned
  have hexponent := splitExponent_eq (t := tail) fun c hc => hplain.ascii c (by simp [hc])
  generalize hbody : (splitSign t).2 = body at hm
  unfold splitMantissa? at hm
  dsimp only at hm
  split at hm
  · next more hmore =>
    split at hm
    · cases hm
    cases hm
    have hwhole := splitDigits_eq (t := body) fun c hc => hplain.ascii c (by simp [hc])
    have hfraction := splitDigits_eq (t := more) fun c hc => hplain.ascii c (by simp [hc])
    -- without digits the point would stand in front of the exponent or at the end
    have hne : (more.takeWhile Text.isDigit).isEmpty = false := by
      obtain ⟨c, hc, hdigit⟩ := hplain.point ((splitSign t).1 ++ body.takeWhile Text.isDigit)
        (more.takeWhile Text.isDigit ++ (splitExponent Text.isDigit (more.dropWhile Text.isDigit)).1)
        (by simp)
      cases hdigits : more.takeWhile Text.isDigit with
      | nil =>
        rw [hdigits, List.nil_append] at hc
        rw [isDigit_head?_splitExponent c hc] at hdigit
        cases hdigit
      | cons _ _ => rfl
    unfold splitNumeral?
    simp only [hbody, hwhole.1, hwhole.2, hmore, fractionDigits, hfraction.1, hne, List.drop_succ_cons,
      Text.drop_length_takeWhile, hexponent]
    simp
  · next hnot =>
    split at hm
    · cases hm
    · next hne =>
      cases hm
      have hwhole := splitDigits_eq (t := body) fun c hc => hplain.ascii c (by simp [hc])
      have hfraction : fractionDigits (body.dropWhile Text.isDigit) = [] := by
        unfold fractionDigits
        split
        · next more heq => exact (hnot more heq).elim
        · rfl
      unfold splitNumeral?
      simp only [hbody, hwhole.1, hwhole.2, hfraction, hexponent]
      simp [hne]

/-- Digits, or a point with digits behind it, start with a character below the letters. -/
theorem exists_cons_of_digits {body : Text}
    (h : (fractionDigits (body.dropWhile Text.isAsciiDigit)).isEmpty = false
      ∨ (body.takeWhile Text.isAsciiDigit).isEmpty = false) :
    ∃ d more, body = d :: more ∧ d ≠ '-' ∧ d.toNat < 0x3A := by
  cases body with
  | nil => rcases h with h | h <;> cases h
  | cons d more =>
    refine ⟨d, more, rfl, ?_⟩
    by_cases hdigit : Text.isAsciiDigit d = true
    · have := Text.isAsciiDigit_iff.mp hdigit
      refine ⟨?_, by omega⟩
      rintro rfl
      exact absurd hdigit (by decide)
    · rw [List.takeWhile_cons_of_neg hdigit, List.dropWhile_cons_of_neg hdigit] at h
      have hpoint : d = '.' := by
        rcases h with h | h
        · unfold fractionDigits at h
          split at h
          · next heq => exact (List.cons.inj heq).1
          · cases h
        · cases h
      rw [hpoint]
      decide

theorem exists_cons_of_splitNumeral? {found : Text × Text} (h : splitNumeral? t = some found) :
    ∃ c body, t = c :: body ∧ c.toNat < 0x3A
      ∧ (c = '-' → ∃ d more, body = d :: more ∧ d ≠ '-' ∧ d.toNat < 0x3A) := by
  have hbody : ∃ d more, (splitSign t).2 = d :: more ∧ d ≠ '-' ∧ d.toNat < 0x3A := by
    refine exists_cons_of_digits ?_
    unfold splitNumeral? at h
    dsimp only at h
    split at h
    · next hfraction => exact .inl (by simpa using hfraction)
    · split at h
      · next hwhole => exact .inr (by simpa using hwhole)
      · cases h
  unfold splitSign at hbody
  split at hbody
  · exact ⟨'+', _, rfl, by decide, nofun⟩
  · exact ⟨'-', _, rfl, by decide, fun _ => hbody⟩
  · obtain ⟨d, more, rfl, hne, hd⟩ := hbody
    exact ⟨d, more, rfl, hd, fun heq => absurd heq hne⟩

/-- A number is no name. -/
theorem startsIdent_of_splitNumeral? {found : Text × Text} (h : splitNumeral? t = some found) :
    startsIdent t = false := by
  have hstart {c : Char} (hc : c.toNat < 0x3A) : isNameStart c = false := by
    have hall : ∀ n < 0x3A, isNameStart (Char.ofNat n) = false := by decide
    rw [← Char.ofNat_toNat c]
    exact hall c.toNat hc
  have hslash {c : Char} (hc : c.toNat < 0x3A) : c ≠ '\\' := by
    rintro rfl
    exact absurd hc (by decide)
  obtain ⟨c, body, rfl, hc, hsign⟩ := exists_cons_of_splitNumeral? h
  by_cases hdash : c = '-'
  · obtain ⟨d, more, rfl, hne, hd⟩ := hsign hdash
    rw [hdash, startsIdent_dash (hslash hd), hstart hd, beq_eq_false_iff_ne.mpr hne]
    rfl
  · rw [startsIdent_cons hdash (hslash hc), hstart hc]

/-! ## One term -/

theorem isSpace_of_isFigure {c : Char} (h : isFigure c = true) : isSpace c = false := by
  cases hspace : isSpace c with
  | false => rfl
  | true =>
    have hblank := isBlank_of_isFigure h
    rw [isBlank_of_isSpace hspace] at hblank
    cases hblank

/-- The tokens of terms. -/
inductive IsTermToken : Token → Prop where
  | number {text : Text} (h : text.length ≤ maxDigits) : IsTermToken (.number text)
  | percentage {text : Text} (h : text.length ≤ maxDigits) : IsTermToken (.percentage text)
  | dimension {text unitName : Text} (h : text.length ≤ maxDigits)
      (hunit : (dimension text unitName).hasExponentUnit = false) :
      IsTermToken (.dimension text unitName)

theorem fault?_eq_none {token : Token} {text : Text} (hnumeral : token.numeral? = some text)
    (h : text.length ≤ maxDigits) : token.fault? = none := by
  have hlen := congrArg List.length (splitSign_append text)
  rw [List.length_append] at hlen
  have hshort : ¬maxDigits < (splitSign text).2.length := by omega
  unfold fault?
  rw [hnumeral]
  exact if_neg (by rw [decide_eq_false hshort, Bool.and_false]; exact Bool.false_ne_true)

theorem IsTermToken.fault?_eq {token : Token} (h : token.IsTermToken) : token.fault? = none := by
  cases h with
  | number h => exact fault?_eq_none rfl h
  | percentage h => exact fault?_eq_none rfl h
  | dimension h _ => exact fault?_eq_none rfl h

theorem IsTermToken.hasExponentUnit_eq {token : Token} (h : token.IsTermToken) :
    token.hasExponentUnit = false := by
  cases h with
  | dimension _ hunit => exact hunit
  | _ => rfl

end Token

/-- A plain number of few digits, and a unit that is known, a percent sign or nothing. -/
structure IsTerm (number unitName : Text) : Prop where
  split : splitNumber? (number ++ unitName) = some (number, unitName)
  plain : IsPlainNumber number
  short : number.length ≤ maxDigits
  unit : unitName = [] ∨ unitName = ['%']
    ∨ unitName.all Text.isLetter = true ∧ ∃ u, LengthUnit.lookup? unitName = some u

namespace IsTerm

variable {number unitName : Text}

theorem figures (h : IsTerm number unitName) : ∀ c ∈ number ++ unitName, isFigure c = true := by
  intro c hc
  rcases List.mem_append.mp hc with hc | hc
  · exact isFigure_of_isNumberChar ((splitNumber?_chars h.split).2.2 c hc)
  · rcases h.unit with rfl | rfl | ⟨hletters, u, hu⟩
    · cases hc
    · exact List.mem_singleton.mp hc ▸ by decide
    · exact u.figures_of_lookup? hletters hu c hc

/-- No unit could be taken for an exponent. -/
theorem hasExponentUnit_eq (hletters : unitName.all Text.isLetter = true) {u : LengthUnit}
    (hu : LengthUnit.lookup? unitName = some u) :
    (Token.dimension number unitName).hasExponentUnit = false := by
  match unitName with
  | [] => rfl
  | [c] =>
    cases hmark : isExponentMark c with
    | false => simp [Token.hasExponentUnit, hmark]
    | true =>
      have hnone : ∀ d ∈ ['e', 'E'], LengthUnit.lookup? [d] = none := by decide
      rw [hnone c (by simpa [isExponentMark] using hmark)] at hu
      cases hu
  | c :: d :: rest =>
    have hd : d ≠ '-' := by
      rintro rfl
      exact absurd (List.all_eq_true.mp hletters '-' (by simp)) (by decide)
    simp [Token.hasExponentUnit, List.isPrefixOf, Ne.symm hd]

/-- A number with its unit is one token. -/
theorem exists_ofNumeral (h : IsTerm number unitName) :
    ∃ token : Token, token.IsTermToken ∧ Token.ofNumeral number unitName = ([token], []) := by
  rcases h.unit with rfl | rfl | ⟨hletters, u, hu⟩
  · exact ⟨_, .number h.short, rfl⟩
  · exact ⟨_, .percentage h.short, rfl⟩
  · have hstart : ∀ c ∈ unitName, Token.isNameStart c = true := fun c hc => by
      simp [Token.isNameStart, List.all_eq_true.mp hletters c hc]
    have hname : ∀ c ∈ unitName, Token.isNameChar c = true := fun c hc => by
      simp [Token.isNameChar, hstart c hc]
    have hread : Token.readName unitName = (unitName, []) := by
      rw [Token.readName_eq]
      · rw [List.takeWhile_eq_self_iff.mpr hname, List.dropWhile_eq_nil_iff.mpr hname]
      · simp [List.dropWhile_eq_nil_iff.mpr hname]
    have hident : Token.startsIdent unitName = true := by
      cases unitName with
      | nil =>
        have hnone : LengthUnit.lookup? [] = none := rfl
        rw [hnone] at hu
        cases hu
      | cons c rest =>
        have hc := List.all_eq_true.mp hletters c List.mem_cons_self
        rw [Token.startsIdent_cons _ (Token.ne_backslash_of_isNameChar (hname c List.mem_cons_self))]
        · exact hstart c List.mem_cons_self
        · rintro rfl
          exact absurd hc (by decide)
    refine ⟨.dimension number unitName, .dimension h.short (hasExponentUnit_eq hletters hu), ?_⟩
    unfold Token.ofNumeral
    rw [if_pos hident, hread]

/-- A term is scanned as one token. -/
theorem exists_scanAll (h : IsTerm number unitName) :
    ∃ token : Token, token.IsTermToken ∧ scanAll (number ++ unitName) = [token] := by
  obtain ⟨token, htoken, hnumeral⟩ := h.exists_ofNumeral
  refine ⟨token, htoken, ?_⟩
  have hsplit := Token.splitNumeral?_eq h.split h.plain
  have hident := Token.startsIdent_of_splitNumeral? hsplit
  obtain ⟨c, body, hcons, -, hsign⟩ := Token.exists_cons_of_splitNumeral? hsplit
  have hc : isFigure c = true := h.figures c (by rw [hcons]; exact List.mem_cons_self)
  have hspace := Token.isSpace_of_isFigure hc
  have hrange : Token.startsRange (c :: body) = false := by
    refine Token.startsRange_eq_false ?_ ?_
    · rintro rfl
      exact absurd hc (by decide)
    · rintro rfl
      exact absurd hc (by decide)
  have harrow : (c = '-' && ['-', '>'].isPrefixOf body) = false := by
    by_cases hdash : c = '-'
    · obtain ⟨d, more, rfl, hne, -⟩ := hsign hdash
      simp [List.isPrefixOf, Ne.symm hne]
    · simp [hdash]
  rw [hcons] at hsplit hident ⊢
  rw [Token.scanAll_cons]
  have hscan : Token.scan c body = ([token], []) := by
    rw [Token.scan_eq hspace hrange harrow, if_neg (by simp [hident]), hsplit]
    exact hnumeral
  rw [hscan, Token.scanAll_nil]
  rfl

/-- What stands behind a term and a space or parenthesis is scanned by itself. -/
theorem exists_scanAll_append (h : IsTerm number unitName) {rest : Text}
    (hrest : Token.EndsToken rest) : ∃ token : Token, token.IsTermToken
      ∧ scanAll (number ++ unitName ++ rest) = token :: scanAll rest := by
  obtain ⟨token, htoken, hscan⟩ := h.exists_scanAll
  refine ⟨token, htoken, ?_⟩
  rw [Token.scanAll_append hrest (fun c hc => ?_) fun c hc => ?_, hscan, List.singleton_append]
  · exact isTame_of_isPlain (isPlain_of_isFigure (h.figures c hc))
  · exact Token.isSpace_of_isFigure (h.figures c (List.mem_of_mem_getLast? hc))

theorem normalize_eq (h : IsTerm number unitName) :
    normalize (number ++ unitName) = number ++ unitName :=
  Token.normalize_eq_self fun c hc => isNormal_of_isFigure (h.figures c hc)

/-- **Terms.** A plain number with its unit is whole. -/
theorem isWhole (h : IsTerm number unitName) : IsWhole (number ++ unitName) := by
  obtain ⟨token, htoken, hscan⟩ := h.exists_scanAll
  constructor
  · rw [h.normalize_eq, hscan]
    exact ⟨List.forall_mem_singleton.mpr htoken.fault?_eq,
      List.forall_mem_singleton.mpr htoken.hasExponentUnit_eq, .singleton _⟩
  · rw [h.normalize_eq, hscan]
    cases htoken <;> rfl

end IsTerm

/-- A length that is read is whole if its number is plain and not too long. -/
theorem Length.isWhole_of_read {t : Text} {l : Length} (h : read t = .ok l) (htrim : t.trim = t)
    (hnumber : ∀ number rest, splitNumber? t = some (number, rest) →
      IsPlainNumber number ∧ number.length ≤ maxDigits) : IsWhole t := by
  obtain ⟨number, unitName, -, hsplit, hletters, hunit, -⟩ := exists_parts h
  rw [htrim] at hsplit
  obtain ⟨hplain, hshort⟩ := hnumber _ _ hsplit
  obtain ⟨rfl, -, -⟩ := splitNumber?_chars hsplit
  exact IsTerm.isWhole
    ⟨hsplit, hplain, hshort, hunit.imp And.left fun hu => .inr ⟨hletters, _, hu⟩⟩

/-- So is a percentage. -/
theorem Percentage.isWhole_of_read {t : Text} {p : Percentage} (h : read t = .ok p)
    (htrim : t.trim = t)
    (hnumber : ∀ number rest, splitNumber? t = some (number, rest) →
      IsPlainNumber number ∧ number.length ≤ maxDigits) : IsWhole t := by
  unfold read at h
  rw [htrim] at h
  split at h
  · next number hsplit =>
    obtain ⟨hplain, hshort⟩ := hnumber _ _ hsplit
    obtain ⟨rfl, -, -⟩ := splitNumber?_chars hsplit
    exact IsTerm.isWhole ⟨hsplit, hplain, hshort, .inr (.inl rfl)⟩
  · cases h

/-! ## Two terms -/

/-- A calculation of two terms, with spaces around the operator. -/
def calculationText (left : Text) (operator : CalcOperator) (right : Text) : Text :=
  CalcSource.opening ++ (left ++ ' ' :: (operator.symbol ++ ' ' :: (right ++ [')'])))

namespace Token

theorem scanAll_opening (t : Text) :
    scanAll (CalcSource.opening ++ t) = .function ['c', 'a', 'l', 'c'] :: scanAll t := by
  have hscan : scan 'c' ('a' :: 'l' :: 'c' :: '(' :: t)
      = ([.function ['c', 'a', 'l', 'c']], t) := by
    have hdrop : ('c' :: 'a' :: 'l' :: 'c' :: '(' :: t).dropWhile isNameChar = '(' :: t := rfl
    have hread := readName_eq (t := 'c' :: 'a' :: 'l' :: 'c' :: '(' :: t) (by rw [hdrop]; nofun)
    have hstart : startsIdent ('c' :: 'a' :: 'l' :: 'c' :: '(' :: t) = true := rfl
    have hrange : startsRange ('c' :: 'a' :: 'l' :: 'c' :: '(' :: t) = false := rfl
    rw [scan_eq (by decide) hrange rfl, if_pos hstart, hread]
    rfl
  show scanAll ('c' :: 'a' :: 'l' :: 'c' :: '(' :: t) = _
  rw [scanAll_cons, hscan]
  rfl

theorem exists_scan_operator (o : CalcOperator) (t : Text) :
    ∃ c, o.symbol = [c] ∧ isSpace c = false
      ∧ scan c (' ' :: t) = ([.literal o.symbol], ' ' :: t) := by
  cases o with
  | plus => exact ⟨'+', rfl, rfl, rfl⟩
  | minus => exact ⟨'-', rfl, rfl, rfl⟩

/-- An operator between spaces is a token of its own. -/
theorem scanAll_operator (o : CalcOperator) (t : Text) :
    scanAll (' ' :: (o.symbol ++ ' ' :: t)) = .whitespace [' '] :: .literal o.symbol
      :: .whitespace (' ' :: t.takeWhile isSpace) :: scanAll (t.dropWhile isSpace) := by
  obtain ⟨c, hsymbol, hspace, hscan⟩ := exists_scan_operator o t
  have hnot : ¬isSpace c = true := by simp [hspace]
  rw [hsymbol, List.singleton_append, scanAll_space rfl, List.takeWhile_cons_of_neg hnot,
    List.dropWhile_cons_of_neg hnot, scanAll_cons, hscan]
  dsimp only
  rw [scanAll_space rfl, hsymbol]
  rfl

end Token

namespace IsTerm

variable {number unitName number' unitName' : Text}

theorem exists_scanAll_calculation (h : IsTerm number unitName) (h' : IsTerm number' unitName')
    (o : CalcOperator) : ∃ left right : Token, left.IsTermToken ∧ right.IsTermToken
      ∧ scanAll (calculationText (number ++ unitName) o (number' ++ unitName'))
        = [.function ['c', 'a', 'l', 'c'], left, .whitespace [' '], .literal o.symbol,
          .whitespace [' '], right, .closing .round] := by
  have hend : Token.EndsToken [')'] := fun c hc => .inr (.inl (Option.some.inj hc).symm)
  have hgap (t : Text) : Token.EndsToken (' ' :: t) := fun c hc => .inl (Option.some.inj hc ▸ rfl)
  obtain ⟨right, hright, hscan'⟩ := h'.exists_scanAll_append hend
  obtain ⟨left, hleft, hscan⟩ := h.exists_scanAll_append
    (hgap (o.symbol ++ ' ' :: (number' ++ unitName' ++ [')'])))
  obtain ⟨c, t, hcons⟩ := List.exists_cons_of_ne_nil (splitNumber?_chars h'.split).2.1
  have hnot : ¬Token.isSpace c = true := by
    rw [Token.isSpace_of_isFigure (h'.figures c (by simp [hcons]))]
    decide
  have hclosing : scanAll [')'] = [.closing .round] := by
    rw [Token.scanAll_cons]
    exact congrArg (_ :: ·) Token.scanAll_nil
  refine ⟨left, right, hleft, hright, ?_⟩
  rw [calculationText, Token.scanAll_opening, hscan, Token.scanAll_operator]
  rw [hcons] at hscan' ⊢
  simp only [List.cons_append] at hscan' ⊢
  rw [List.takeWhile_cons_of_neg hnot, List.dropWhile_cons_of_neg hnot, hscan', hclosing]

theorem normalize_calculation (h : IsTerm number unitName) (h' : IsTerm number' unitName')
    (o : CalcOperator) :
    normalize (calculationText (number ++ unitName) o (number' ++ unitName'))
      = calculationText (number ++ unitName) o (number' ++ unitName') := by
  have hopening : ∀ c ∈ CalcSource.opening, Token.isNormal c = true := by decide
  have hsymbol : ∀ c ∈ o.symbol, Token.isNormal c = true := by cases o <;> decide
  refine Token.normalize_eq_self fun c hc => ?_
  rcases List.mem_append.mp hc with hc | hc
  · exact hopening c hc
  rcases List.mem_append.mp hc with hc | hc
  · exact isNormal_of_isFigure (h.figures c hc)
  rcases List.mem_cons.mp hc with rfl | hc
  · decide
  rcases List.mem_append.mp hc with hc | hc
  · exact hsymbol c hc
  rcases List.mem_cons.mp hc with rfl | hc
  · decide
  rcases List.mem_append.mp hc with hc | hc
  · exact isNormal_of_isFigure (h'.figures c hc)
  · exact List.mem_singleton.mp hc ▸ by decide

/-- **Calculations.** Two terms with spaces around an operator are whole. -/
theorem isWhole_calculation (h : IsTerm number unitName) (h' : IsTerm number' unitName')
    (o : CalcOperator) :
    IsWhole (calculationText (number ++ unitName) o (number' ++ unitName')) := by
  obtain ⟨left, right, hleft, hright, hscan⟩ := h.exists_scanAll_calculation h' o
  constructor
  · rw [h.normalize_calculation h' o, hscan]
    refine ⟨?_, ?_, ?_⟩
    · simp only [List.forall_mem_cons]
      exact ⟨rfl, hleft.fault?_eq, rfl, rfl, rfl, hright.fault?_eq, rfl, nofun⟩
    · simp only [List.forall_mem_cons]
      exact ⟨rfl, hleft.hasExponentUnit_eq, rfl, rfl, rfl, hright.hasExponentUnit_eq, rfl, nofun⟩
    · simp only [List.map_cons, List.map_nil, List.isChain_cons_cons]
      exact ⟨Component.Kind.isQuiet_function.clash_eq _, Component.Kind.clash_whitespace _,
        Component.Kind.isQuiet_whitespace.clash_eq _, Component.Kind.clash_whitespace _,
        Component.Kind.isQuiet_whitespace.clash_eq _, Component.Kind.clash_error _, .singleton _⟩
  · rw [h.normalize_calculation h' o, hscan]
    cases hleft <;> cases hright <;> rfl

example : IsWhole "calc(1.5em - 10%)".toList := by decide +kernel

end IsTerm

end CssValues
