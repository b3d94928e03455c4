import CssValues.Proofs.Token.Closed
import CssValues.Proofs.Token.Cut
import CssValues.Proofs.Token.Normalize

/-!
# Tokens that are kept

A token without escapes is written as it stands in the text, and is read again if the text behind it
goes on as before or is cut: `Token.ofName_kept`, `Token.ofNumeral_kept`, `Token.scanMark_kept`.
-/

namespace CssValues.Token

/-! ## Tokens that are kept -/

theorem isSpace_of_isNumberChar {c : Char} (h : isNumberChar c = true) : isSpace c = false :=
  isSpace_eq_false (by decide) h

/-- A token that is written so that it is read again: no URL and no range of code points, nothing
that is broken, and no unit that could be taken for an exponent. -/
def isKept : Token → Bool
  | .string _ closed => closed
  | .function name => Text.asciiLower name ≠ urlName
  | .dimension text unitName => !(Token.dimension text unitName).hasExponentUnit
  | .url .. | .unicodeRange .. | .badString | .badUrl | .endInString | .endInUrl => false
  | _ => true

theorem readRange_not_kept (t : Text) : (readRange t).1.isKept = false := by
  unfold readRange
  dsimp only
  split
  · rfl
  · split
    · split <;> rfl
    · rfl

theorem readUrlToken_not_kept (t : Text) : ∀ a ∈ (readUrlToken t).1, a.isKept = false := by
  rw [readUrlToken_eq]
  generalize (together (readUrl (t.dropWhile isSpace))).1 = found
  generalize (together (readUrl (t.dropWhile isSpace))).2 = more
  unfold afterUrl
  split
  · simp [isKept]
  · simp [isKept]
  · simp [isKept]
  · split
    · simp [isKept]
    · split <;> simp [isKept]

theorem exists_of_head? {t : Text} {c : Char} (h : t.head? = some c) : ∃ more, t = c :: more := by
  cases t with
  | nil => cases h
  | cons d more => exact ⟨more, by rw [Option.some.inj h]⟩

theorem ofName_of_head? {t : Text} (name : Text) (h : t.head? ≠ some '(') :
    ofName name t = ([.ident name], t) := by
  unfold ofName
  split
  · exact absurd rfl h
  · rfl

theorem ofNumeral_of_head? {t : Text} (number : Text) (hident : startsIdent t = false)
    (h : t.head? ≠ some '%') : ofNumeral number t = ([.number number], t) := by
  unfold ofNumeral
  rw [hident, if_neg Bool.false_ne_true]
  split
  · exact absurd rfl h
  · rfl

theorem ofNumeral_of_startsIdent {t : Text} (number : Text) (h : startsIdent t = true) :
    ofNumeral number t = ([.dimension number (readName t).1], (readName t).2) := if_pos h

/-- What a reader takes off the front of a text, behind what was taken off before, is written as it
is, and is taken off again if the rest is cut. There is no white space in it. -/
structure Keeps (reader : Text → List Token × Text) (before : Text) (a : Token)
    (t body rest : Text) : Prop where
  css : a.css = before ++ body
  source : t = body ++ rest
  solid : ∀ c ∈ body, isSpace c = false
  again (u : Text) (h : Cut rest u) : reader (body ++ u) = ([a], u)

section

variable {name rest : Text} {a : Token}

/-- What follows a name is read again, up to where it is cut. -/
theorem ofName_kept (hname : IsName name) {t : Text} (h : ofName name t = ([a], rest))
    (hkept : a.isKept = true) : ∃ body, Keeps (ofName name) name a t body rest := by
  by_cases hopening : t.head? = some '('
  · obtain ⟨more, rfl⟩ := exists_of_head? hopening
    by_cases hurl : (Text.asciiLower name = urlName && !startsQuote more) = true
    · have hread : ofName name ('(' :: more) = readUrlToken more := if_pos hurl
      rw [hread] at h
      have := readUrlToken_not_kept more a (by rw [h]; exact List.mem_singleton_self a)
      rw [hkept] at this
      cases this
    · have hfunction : ofName name ('(' :: more) = ([.function name], more) := if_neg hurl
      rw [hfunction] at h
      cases h
      have hne : Text.asciiLower name ≠ urlName := of_decide_eq_true hkept
      refine ⟨['('], congrArg (· ++ ['(']) (identCss_eq hname), rfl, by decide, fun u _ => ?_⟩
      exact if_neg (by simp [hne])
  · rw [ofName_of_head? name hopening] at h
    cases h
    refine ⟨[], (identCss_eq hname).trans (List.append_nil name).symm, rfl, List.forall_mem_nil _,
      fun u hcut => ?_⟩
    exact ofName_of_head? name (hcut.head?_ne rfl hopening)

/-- What follows a number is read again, up to where it is cut. -/
theorem ofNumeral_kept {number t : Text} (hslash : '\\' ∉ t) (h : ofNumeral number t = ([a], rest))
    (hkept : a.isKept = true) : ∃ body, Keeps (ofNumeral number) number a t body rest := by
  by_cases hident : startsIdent t = true
  · rw [ofNumeral_of_startsIdent number hident, readName_of_no_escape hslash] at h
    cases h
    have hname := isName_takeWhile hslash hident
    refine ⟨t.takeWhile isNameChar, ?_, List.takeWhile_append_dropWhile.symm,
      fun c hc => isSpace_of_isNameChar (List.mem_takeWhile_imp hc), fun u hcut => ?_⟩
    · have hunit : (Token.dimension number (t.takeWhile isNameChar)).hasExponentUnit = false := by
        simpa [isKept] using hkept
      refine congrArg (number ++ ·) ?_
      generalize t.takeWhile isNameChar = unitName at hname hunit
      cases unitName with
      | nil => rfl
      | cons c more =>
        rw [hasExponentUnit] at hunit
        rw [unitCss, if_neg (by simp [hunit]), identCss_eq hname]
    · rw [ofNumeral_of_startsIdent number (hname.startsIdent_append _), readName_cut hslash hcut]
  by_cases hpercent : t.head? = some '%'
  · obtain ⟨more, rfl⟩ := exists_of_head? hpercent
    have hpercentage (t : Text) : ofNumeral number ('%' :: t) = ([.percentage number], t) := rfl
    rw [hpercentage] at h
    cases h
    exact ⟨['%'], rfl, rfl, by decide, fun u _ => hpercentage u⟩
  · rw [ofNumeral_of_head? number (by simpa using hident) hpercent] at h
    cases h
    refine ⟨[], (List.append_nil number).symm, rfl, List.forall_mem_nil _, fun u hcut => ?_⟩
    refine ofNumeral_of_head? number (Bool.eq_false_iff.mpr fun hu => hident ?_)
      (hcut.head?_ne rfl hpercent)
    exact hcut.startsIdent hslash hu

end

/-! ## Strings -/

theorem readEscape_of_not_hex {c : Char} (h : Text.isHexDigit c = false) (t : Text) :
    readEscape (c :: t) = (c, t) := by
  unfold readEscape
  simp [h]

theorem stringCharCss_eq {c : Char} (hnormal : isNormal c = true) (hbreak : c ≠ '\n') :
    stringCharCss c = if c = '"' || c = '\\' then ['\\', c] else [c] := by
  have hnone : breakEscape? c = none := by
    simp only [isNormal, Bool.and_eq_true, bne_iff_ne] at hnormal
    simp [breakEscape?, hbreak, hnormal.1.1, hnormal.1.2]
  rw [stringCharCss, hnone]
  rfl

/-- A string is read again as it is written. -/
theorem readString_written {value : Text} (h : ∀ c ∈ value, isNormal c = true ∧ c ≠ '\n') (u : Text) :
    readString '"' (value.flatMap stringCharCss ++ '"' :: u) = (value, .closed, u) := by
  induction value with
  | nil => exact readString_quote '"' u
  | cons c value ih =>
    obtain ⟨⟨hnormal, hbreak⟩, hvalue⟩ := List.forall_mem_cons.mp h
    rw [List.flatMap_cons, List.append_assoc, stringCharCss_eq hnormal hbreak]
    by_cases hescape : c = '"' ∨ c = '\\'
    · have hhex : Text.isHexDigit c = false := by rcases hescape with rfl | rfl <;> decide
      rw [if_pos (by simpa using hescape), List.cons_append, List.singleton_append,
        readString_escape (by decide) hbreak, readEscape_of_not_hex hhex, ih hvalue]
      rfl
    · obtain ⟨hquote, hslash⟩ := not_or.mp hescape
      rw [if_neg (by simpa using hescape), List.singleton_append,
        readString_cons hquote hslash hbreak, ih hvalue]
      rfl

theorem readString_closed {quote : Char} {t value rest : Text} (hslash : '\\' ∉ t)
    (h : readString quote t = (value, .closed, rest)) :
    t = value ++ quote :: rest ∧ '\n' ∉ value := by
  fun_induction readString quote t generalizing value with
  | case1 => cases h
  | case2 t =>
    cases h
    exact ⟨rfl, List.not_mem_nil⟩
  | case3 => cases h
  | case4 => simp at hslash
  | case5 => simp at hslash
  | case6 => cases h
  | case7 c t hquote hne hbreak ih =>
    have hend : (readString quote t).2 = (.closed, rest) := congrArg Prod.snd h
    have hmore : readString quote t = ((readString quote t).1, .closed, rest) := Prod.ext rfl hend
    have hvalue : c :: (readString quote t).1 = value := congrArg Prod.fst h
    obtain ⟨hsource, hnone⟩ := ih (fun hmem => hslash (List.mem_cons_of_mem c hmem)) hmore
    rw [← hvalue]
    refine ⟨congrArg (c :: ·) hsource, fun hmem => ?_⟩
    exact (List.mem_cons.mp hmem).elim (fun heq => hbreak heq.symm) hnone

/-! ## Marks -/

/-- A character that starts no name and no number, and that makes up no token with those behind. -/
structure IsLoneMark (c : Char) (t : Text) : Prop where
  atSign : c = '@' → startsIdent t = false
  hash : c = '#' → startsName t = false
  quote : c ≠ '"' ∧ c.toNat ≠ 0x27
  slash : c = '/' → ['*'].isPrefixOf t = false
  angle : c = '<' → ['!', '-', '-'].isPrefixOf t = false
  bar : c = '|' → ['|'].isPrefixOf t = false
  equal : c ∈ ['~', '|', '^', '$', '*'] → ['='].isPrefixOf t = false

/-- The token of such a character. -/
def markToken (c : Char) : Token :=
  match Bracket.ofOpening? c, Bracket.ofClosing? c with
  | some b, _ => .opening b
  | none, some b => .closing b
  | none, none => .literal [c]

theorem scanMark_lone {c : Char} {t : Text} (h : IsLoneMark c t) :
    scanMark c t = ([markToken c], t) := by
  have hand {p : Prop} [Decidable p] {b : Bool} (h : p → b = false) : ¬(p && b) = true := by
    intro hboth
    obtain ⟨hp, hb⟩ := Bool.and_eq_true_iff.mp hboth
    rw [h (of_decide_eq_true hp)] at hb
    cases hb
  have hmark : (match Bracket.ofOpening? c, Bracket.ofClosing? c with
    | some b, _ => ([Token.opening b], t)
    | none, some b => ([.closing b], t)
    | none, none => ([.literal [c]], t)) = ([markToken c], t) := by
    unfold markToken
    split <;> rfl
  by_cases hat : c = '@'
  · subst hat
    rw [scanMark, if_pos rfl, h.atSign rfl]
    rfl
  by_cases hhash : c = '#'
  · subst hhash
    rw [scanMark, if_neg hat, if_pos rfl, h.hash rfl]
    rfl
  have hequal : ¬(['~', '|', '^', '$', '*'].contains c && ['='].isPrefixOf t) = true := by
    rw [List.contains_eq_mem]
    exact hand h.equal
  rw [scanMark, if_neg hat, if_neg hhash, if_neg (by simp [h.quote]), if_neg (hand h.slash),
    if_neg (hand h.angle), if_neg (hand h.bar), if_neg hequal]
  exact hmark

theorem css_markToken (c : Char) : (markToken c).css = [c] := by
  unfold markToken
  split
  · next b heq =>
    rw [Bracket.ofOpening?] at heq
    have hfound := List.find?_some heq
    exact congrArg (fun c => [c]) (of_decide_eq_true hfound)
  · next b _ heq =>
    rw [Bracket.ofClosing?] at heq
    have hfound := List.find?_some heq
    exact congrArg (fun c => [c]) (of_decide_eq_true hfound)
  · rfl

section

variable {t u : Text}

theorem IsLoneMark.cut {c : Char} (h : IsLoneMark c t) (hslash : '\\' ∉ t) (hcut : Cut t u) :
    IsLoneMark c u where
  atSign hc := hcut.startsIdent_eq_false hslash (h.atSign hc)
  hash hc := hcut.startsName_eq_false hslash (h.hash hc)
  quote := h.quote
  slash hc := hcut.isPrefixOf_eq_false (by decide) (h.slash hc)
  angle hc := hcut.isPrefixOf_eq_false (by decide) (h.angle hc)
  bar hc := hcut.isPrefixOf_eq_false (by decide) (h.bar hc)
  equal hc := hcut.isPrefixOf_eq_false (by decide) (h.equal hc)

end

/-- A mark that is no string is read again, up to where it is cut. -/
theorem scanMark_kept {c : Char} {t rest : Text} {a : Token} (hslash : '\\' ∉ t)
    (hquote : c ≠ '"' ∧ c.toNat ≠ 0x27) (h : scanMark c t = ([a], rest)) :
    ∃ body, Keeps (scanMark c) [c] a t body rest := by
  by_cases hlone : IsLoneMark c t
  · rw [scanMark_lone hlone] at h
    cases h
    exact ⟨[], css_markToken c, rfl, List.forall_mem_nil _,
      fun u hcut => scanMark_lone (hlone.cut hslash hcut)⟩
  by_cases hat : c = '@'
  · subst hat
    have hident : startsIdent t = true := by
      by_contra hno
      exact hlone ⟨fun _ => by simpa using hno, nofun, by decide, nofun, nofun, nofun, by simp⟩
    rw [scanMark, if_pos rfl, if_pos hident, readName_of_no_escape hslash] at h
    cases h
    have hname := isName_takeWhile hslash hident
    refine ⟨t.takeWhile isNameChar, congrArg ('@' :: ·) (identCss_eq hname),
      List.takeWhile_append_dropWhile.symm,
      fun d hd => isSpace_of_isNameChar (List.mem_takeWhile_imp hd), fun u hcut => ?_⟩
    rw [scanMark, if_pos rfl, if_pos (hname.startsIdent_append _), readName_cut hslash hcut]
  by_cases hhash : c = '#'
  · subst hhash
    have hname : startsName t = true := by
      by_contra hno
      exact hlone ⟨nofun, fun _ => by simpa using hno, by decide, nofun, nofun, nofun, by simp⟩
    rw [scanMark, if_neg hat, if_pos rfl, if_pos hname, readName_of_no_escape hslash] at h
    cases h
    refine ⟨t.takeWhile isNameChar, ?_, List.takeWhile_append_dropWhile.symm,
      fun d hd => isSpace_of_isNameChar (List.mem_takeWhile_imp hd), fun u hcut => ?_⟩
    · refine congrArg ('#' :: ·) ?_
      split
      · next hident => exact identCss_eq (isName_takeWhile hslash hident)
      · exact nameCss_eq fun d hd => List.mem_takeWhile_imp hd
    · have hagain := hcut.append (t.takeWhile isNameChar)
      rw [List.takeWhile_append_dropWhile] at hagain
      have hstarts : startsName (t.takeWhile isNameChar ++ u) = true := by
        cases t with
        | nil => cases hname
        | cons c t =>
          have hc : isNameChar c = true := by rwa [startsName_eq_head? hslash] at hname
          rw [List.takeWhile_cons_of_pos hc, List.cons_append, startsName, hc, Bool.true_or]
      have hident : startsIdent (t.takeWhile isNameChar ++ u) = startsIdent t := by
        cases hident : startsIdent t with
        | true => exact (isName_takeWhile hslash hident).startsIdent_append u
        | false => exact hagain.startsIdent_eq_false hslash hident
      rw [scanMark, if_neg hat, if_pos rfl, if_pos hstarts, readName_cut hslash hcut, hident]
  unfold scanMark at h
  rw [if_neg hat, if_neg hhash, if_neg (by simp [hquote])] at h
  split at h
  · cases h
  next hcomment =>
  split at h
  · next hangle =>
    obtain ⟨hc, hmore⟩ := Bool.and_eq_true_iff.mp hangle
    obtain rfl := of_decide_eq_true hc
    obtain ⟨more, rfl⟩ := List.isPrefixOf_iff_prefix.mp hmore
    cases h
    exact ⟨['!', '-', '-'], rfl, rfl, by decide, fun u _ => rfl⟩
  next hangle =>
  split at h
  · next hbar =>
    obtain ⟨hc, hmore⟩ := Bool.and_eq_true_iff.mp hbar
    obtain rfl := of_decide_eq_true hc
    obtain ⟨more, rfl⟩ := List.isPrefixOf_iff_prefix.mp hmore
    cases h
    exact ⟨['|'], rfl, rfl, by decide, fun u _ => rfl⟩
  next hbar =>
  split at h
  · next hequal =>
    obtain ⟨hc, hmore⟩ := Bool.and_eq_true_iff.mp hequal
    obtain ⟨more, rfl⟩ := List.isPrefixOf_iff_prefix.mp hmore
    cases h
    refine ⟨['='], rfl, rfl, by decide, fun u _ => ?_⟩
    simp only [List.contains_cons, List.contains_nil, Bool.or_eq_true, beq_iff_eq] at hc
    rcases hc with rfl | rfl | rfl | rfl | rfl | hc
    · rfl
    · rfl
    · rfl
    · rfl
    · rfl
    · cases hc
  · next hequal =>
    have hand {p : Prop} [Decidable p] {b : Bool} (h : ¬(p && b) = true) (hp : p) : b = false := by
      simpa [hp] using h
    rw [List.contains_eq_mem] at hequal
    exact absurd ⟨fun hc => absurd hc hat, fun hc => absurd hc hhash, hquote, hand hcomment,
      hand hangle, hand hbar, hand hequal⟩ hlone

end CssValues.Token
