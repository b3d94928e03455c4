import CssValues.Proofs.Component.Css
import CssValues.Proofs.Token.Kept

/-!
# Scanning what was written

A text without escapes and comments is scanned token by token. The tokens are written in a row, some
of them kept apart by empty comments, and are scanned again (`Token.Scans.scanAll_written`).
-/

namespace CssValues.Token

/-! ## One token -/

theorem scan_quote {c : Char} (hc : c = '"' ∨ c.toNat = 0x27) (t : Text) :
    scan c t = readStringTokens c t := by
  have hcases : c = '"' ∨ c = Char.ofNat 0x27 := by
    refine hc.imp_right fun heq => ?_
    rw [← heq, Char.ofNat_toNat]
  have hquote : (decide (c = '"') || decide (c.toNat = 0x27)) = true := by simpa using hc
  have hnumeral : splitNumeral? (c :: t) = none := by rcases hcases with rfl | rfl <;> rfl
  have hne {d : Char} (h1 : '"' ≠ d) (h2 : Char.ofNat 0x27 ≠ d) : c ≠ d := by
    rcases hcases with rfl | rfl
    · exact h1
    · exact h2
  have hrange : startsRange (c :: t) = false :=
    startsRange_eq_false (hne (by decide) (by decide)) (hne (by decide) (by decide))
  have hident : startsIdent (c :: t) = false := by
    rw [startsIdent_cons (hne (by decide) (by decide)) (hne (by decide) (by decide))]
    rcases hcases with rfl | rfl <;> rfl
  rw [scan_eq (by rcases hcases with rfl | rfl <;> rfl) hrange
    (by rcases hcases with rfl | rfl <;> rfl), hident, hnumeral]
  rcases hcases with rfl | rfl <;> rfl

section

variable {c : Char} {t rest body : Text} {a : Token}

/-- What was taken off before is taken off again as well. -/
theorem Keeps.behind {reader : Text → List Token × Text} {more after : Text}
    (h : Keeps reader (c :: more) a after body rest) (hsource : t = more ++ after)
    (hsolid : ∀ d ∈ more, isSpace d = false)
    (hscan : ∀ u, Cut after u → scan c (more ++ u) = reader u) :
    Keeps (scan c) [c] a t (more ++ body) rest where
  css := by
    rw [h.css]
    rfl
  source := by rw [hsource, h.source, List.append_assoc]
  solid := List.forall_mem_append.mpr ⟨hsolid, h.solid⟩
  again u hu := by
    have hafter : Cut after (body ++ u) := by
      rw [h.source]
      exact hu.append body
    rw [List.append_assoc, hscan _ hafter, h.again u hu]

/-- A text that starts with no white space, no range of code points and no arrow. -/
structure IsFront (c : Char) (t : Text) : Prop where
  space : isSpace c = false
  range : startsRange (c :: t) = false
  arrow : (c = '-' && ['-', '>'].isPrefixOf t) = false

/-- A text that goes on alike starts with none of them either. -/
theorem IsFront.cut {u : Text} (h : IsFront c t) (hcut : Cut t u) : IsFront c u where
  space := h.space
  range := Bool.eq_false_iff.mpr fun hu =>
    Bool.eq_false_iff.mp h.range ((hcut.cons c).startsRange hu)
  arrow := by
    have harrow := h.arrow
    rw [Bool.and_eq_false_imp] at harrow ⊢
    exact fun hc => hcut.isPrefixOf_eq_false (by decide) (harrow hc)

theorem scan_kept_name (hslash : '\\' ∉ c :: t) (hfront : IsFront c t)
    (hident : startsIdent (c :: t) = true) (h : scan c t = ([a], rest)) (hkept : a.isKept = true) :
    ∃ body, Keeps (scan c) [c] a t body rest := by
  rw [scan_eq hfront.space hfront.range hfront.arrow, hident, if_pos rfl,
    readName_of_no_escape hslash] at h
  dsimp only at h
  have hname := isName_takeWhile hslash hident
  obtain ⟨body, hread⟩ := ofName_kept hname h hkept
  have hsource := List.takeWhile_append_dropWhile (p := isNameChar) (l := c :: t)
  have hagain {u : Text} (hcut : Cut ((c :: t).dropWhile isNameChar) u) := readName_cut hslash hcut
  generalize (c :: t).dropWhile isNameChar = after at *
  generalize (c :: t).takeWhile isNameChar = name at *
  obtain ⟨more, rfl, rfl⟩ : ∃ more, name = c :: more ∧ t = more ++ after := by
    cases name with
    | nil => cases hname.1
    | cons d more =>
      obtain ⟨rfl, rfl⟩ := List.cons.inj hsource
      exact ⟨more, rfl, rfl⟩
  refine ⟨more ++ body, hread.behind rfl (fun d hd => ?_) fun u hcut => ?_⟩
  · exact isSpace_of_isNameChar (hname.2 d (List.mem_cons_of_mem c hd))
  · have hfront := hfront.cut (hcut.append more)
    have hstarts := hname.startsIdent_append u
    have hread := hagain hcut
    rw [List.cons_append] at hstarts hread
    rw [scan_eq hfront.space hfront.range hfront.arrow, hstarts, if_pos rfl, hread]

theorem scan_kept_number (hslash : '\\' ∉ c :: t) (hfront : IsFront c t)
    (hident : startsIdent (c :: t) = false) {number after : Text}
    (hnumeral : splitNumeral? (c :: t) = some (number, after)) (h : scan c t = ([a], rest))
    (hkept : a.isKept = true) : ∃ body, Keeps (scan c) [c] a t body rest := by
  rw [scan_eq hfront.space hfront.range hfront.arrow, hident, hnumeral] at h
  obtain ⟨hsource, hnumber⟩ := splitNumeral?_chars hnumeral
  have hafter : '\\' ∉ after := fun hmem => hslash (hsource ▸ List.mem_append_right _ hmem)
  obtain ⟨body, hread⟩ := ofNumeral_kept hafter h hkept
  have hshorter := length_splitNumeral?_lt hnumeral
  obtain ⟨more, rfl, rfl⟩ : ∃ more, number = c :: more ∧ t = more ++ after := by
    cases number with
    | nil =>
      rw [← hsource] at hshorter
      exact absurd hshorter (Nat.lt_irrefl _)
    | cons d more =>
      obtain ⟨rfl, rfl⟩ := List.cons.inj hsource
      exact ⟨more, rfl, rfl⟩
  refine ⟨more ++ body, hread.behind rfl (fun d hd => ?_) fun u hcut => ?_⟩
  · exact isSpace_of_isNumberChar (hnumber d (List.mem_cons_of_mem c hd))
  · have hwhole := hcut.append more
    have hfront := hfront.cut hwhole
    have hread := splitNumeral?_cut hnumeral hcut
    rw [List.cons_append] at hread
    rw [scan_eq hfront.space hfront.range hfront.arrow,
      (hwhole.cons c).startsIdent_eq_false hslash hident, if_neg Bool.false_ne_true, hread]

theorem scan_kept_mark (hslash : '\\' ∉ c :: t) (hquote : c ≠ '"' ∧ c.toNat ≠ 0x27)
    (hfront : IsFront c t) (hident : startsIdent (c :: t) = false)
    (hnumeral : splitNumeral? (c :: t) = none) (h : scan c t = ([a], rest)) :
    ∃ body, Keeps (scan c) [c] a t body rest := by
  have hmark {u : Text} (hcut : Cut t u) : scan c u = scanMark c u := by
    have hfront := hfront.cut hcut
    rw [scan_eq hfront.space hfront.range hfront.arrow,
      (hcut.cons c).startsIdent_eq_false hslash hident,
      (hcut.cons c).splitNumeral?_eq_none hnumeral]
    rfl
  rw [hmark (.refl t)] at h
  obtain ⟨body, hread⟩ := scanMark_kept (fun hmem => hslash (List.mem_cons_of_mem c hmem)) hquote h
  exact ⟨body, hread.behind rfl (List.forall_mem_nil _) fun u => hmark⟩

/-- A token that is neither string nor white space is scanned again, up to where it is cut. -/
theorem scan_kept_front (hslash : '\\' ∉ c :: t) (hquote : c ≠ '"' ∧ c.toNat ≠ 0x27)
    (hspace : isSpace c = false) (h : scan c t = ([a], rest)) (hkept : a.isKept = true) :
    ∃ body, Keeps (scan c) [c] a t body rest := by
  cases hrange : startsRange (c :: t) with
  | true =>
    unfold scan at h
    rw [if_neg (by simp [hspace]), if_pos hrange] at h
    cases h
    rw [readRange_not_kept] at hkept
    cases hkept
  | false =>
  cases harrow : c = '-' && ['-', '>'].isPrefixOf t with
  | true =>
    obtain ⟨hc, hmore⟩ := Bool.and_eq_true_iff.mp harrow
    obtain rfl := of_decide_eq_true hc
    obtain ⟨more, rfl⟩ := List.isPrefixOf_iff_prefix.mp hmore
    cases h
    exact ⟨['-', '>'], rfl, rfl, by decide, fun u _ => rfl⟩
  | false =>
  have hfront : IsFront c t := ⟨hspace, hrange, harrow⟩
  cases hident : startsIdent (c :: t) with
  | true => exact scan_kept_name hslash hfront hident h hkept
  | false =>
  cases hnumeral : splitNumeral? (c :: t) with
  | some found => exact scan_kept_number hslash hfront hident hnumeral h hkept
  | none => exact scan_kept_mark hslash hquote hfront hident hnumeral h

end

/-- White space is made of spaces, and an identifier has a name that needs no escapes. -/
def IsProper : Token → Prop
  | .whitespace t => ∀ c ∈ t, isSpace c = true
  | .ident name => IsName name
  | _ => True

theorem isProper_scanMark {c : Char} {t rest : Text} {a : Token}
    (h : scanMark c t = ([a], rest)) : a.IsProper := by
  unfold scanMark at h
  split at h
  · split at h <;> cases h <;> trivial
  split at h
  · split at h <;> cases h <;> trivial
  split at h
  · unfold readStringTokens at h
    dsimp only at h
    split at h <;> cases h <;> trivial
  split at h
  · cases h
  split at h
  · cases h
    trivial
  split at h
  · cases h
    trivial
  split at h
  · cases h
    trivial
  split at h <;> cases h <;> trivial

theorem isProper_of_not_kept {a : Token} (h : a.isKept = false) : a.IsProper := by
  cases a <;> trivial

theorem isProper_scan {c : Char} {t rest : Text} {a : Token} (hslash : '\\' ∉ c :: t)
    (h : scan c t = ([a], rest)) : a.IsProper := by
  unfold scan at h
  split at h
  · next hspace =>
    cases h
    exact List.forall_mem_cons.mpr ⟨hspace, fun d hd => List.mem_takeWhile_imp hd⟩
  split at h
  · cases h
    exact isProper_of_not_kept (readRange_not_kept _)
  split at h
  · cases h
    trivial
  split at h
  · next hident =>
    rw [readName_of_no_escape hslash] at h
    dsimp only at h
    unfold ofName at h
    split at h
    · next more _ =>
      split at h
      · have hmem : a ∈ (readUrlToken more).1 := by
          rw [h]
          exact List.mem_singleton_self _
        exact isProper_of_not_kept (readUrlToken_not_kept more a hmem)
      · cases h
        trivial
    · cases h
      exact isName_takeWhile hslash hident
  split at h
  · unfold ofNumeral at h
    split at h
    · cases h
      trivial
    · split at h <;> cases h <;> trivial
  · exact isProper_scanMark h

/-- How a token is written that was scanned off the front of a text. -/
structure Rescans (t : Text) (a : Token) (rest : Text) : Prop where
  suffix : rest <:+ t
  proper : a.IsProper
  /-- What is written is from the text, but for quotes and the escapes of them. -/
  chars : ∀ d ∈ a.css, d ∈ t ∨ d = '"' ∨ d = '\\'
  first (h : ∀ s, a ≠ .whitespace s) : ∃ d ∈ a.css.head?, isSpace d = false
  last (h : ∀ s, a ≠ .whitespace s) : ∃ d ∈ a.css.getLast?, isSpace d = false
  again (u : Text) (h : Cut rest u) : scanAll (a.css ++ u) = a :: scanAll u
  cut (u : Text) (h : Cut rest u) : Cut t (a.css ++ u)

/-- What is written for a string is the string, but for its quotes and the escapes of them. -/
theorem mem_stringCss {value : Text} (h : ∀ c ∈ value, isNormal c = true ∧ c ≠ '\n') {d : Char}
    (hd : d ∈ value.flatMap stringCharCss) : d ∈ value ∨ d = '\\' := by
  obtain ⟨c, hc, hd⟩ := List.mem_flatMap.mp hd
  rw [stringCharCss_eq (h c hc).1 (h c hc).2] at hd
  split at hd
  · rcases List.mem_cons.mp hd with rfl | hd
    · exact .inr rfl
    · exact .inl (List.mem_singleton.mp hd ▸ hc)
  · exact .inl (List.mem_singleton.mp hd ▸ hc)

theorem scan_kept_string {c : Char} {t rest : Text} {a : Token} (hslash : '\\' ∉ c :: t)
    (hnormal : ∀ d ∈ c :: t, isNormal d = true) (hquote : c = '"' ∨ c.toNat = 0x27)
    (h : scan c t = ([a], rest)) (hkept : a.isKept = true) : Rescans (c :: t) a rest := by
  have hslash' : '\\' ∉ t := fun hmem => hslash (List.mem_cons_of_mem c hmem)
  rw [scan_quote hquote] at h
  unfold readStringTokens at h
  dsimp only at h
  split at h
  · next hclosed =>
    cases h
    have hread : readString c t = ((readString c t).1, .closed, (readString c t).2.2) :=
      Prod.ext rfl (Prod.ext hclosed rfl)
    obtain ⟨hsource, hbreak⟩ := readString_closed hslash' hread
    generalize (readString c t).1 = value at hsource hbreak
    generalize (readString c t).2.2 = rest at hsource
    subst hsource
    have hvalue : ∀ d ∈ value, isNormal d = true ∧ d ≠ '\n' := fun d hd =>
      ⟨hnormal d (by simp [hd]), fun heq => hbreak (heq ▸ hd)⟩
    have hcss (u : Text) : (Token.string value true).css ++ u
        = '"' :: (value.flatMap stringCharCss ++ '"' :: u) :=
      List.append_assoc ('"' :: value.flatMap stringCharCss) ['"'] u
    have hwhole : (Token.string value true).css = '"' :: value.flatMap stringCharCss ++ ['"'] := rfl
    refine ⟨⟨c :: (value ++ [c]), by simp⟩, trivial, fun d hd => ?_, fun _ => ⟨'"', rfl, rfl⟩,
      fun _ => ?_, fun u _ => ?_, fun u _ => .stop rfl _ _⟩
    · rw [hwhole, List.mem_append, List.mem_cons, List.mem_singleton] at hd
      rcases hd with (hd | hd) | hd
      · exact .inr (.inl hd)
      · exact (mem_stringCss hvalue hd).imp (fun hmem => by simp [hmem]) .inr
      · exact .inr (.inl hd)
    · rw [hwhole]
      exact ⟨'"', List.getLast?_concat, rfl⟩
    · rw [hcss, scanAll_cons, scan_quote (.inl rfl), readStringTokens, readString_written hvalue]
      rfl
  · cases h
  · cases h
    cases hkept

theorem scan_kept_space {c : Char} {t rest : Text} {a : Token} (hslash : '\\' ∉ c :: t)
    (hspace : isSpace c = true) (h : scan c t = ([a], rest)) : Rescans (c :: t) a rest := by
  have hproper := isProper_scan hslash h
  have hsource := List.takeWhile_append_dropWhile (p := isSpace) (l := t)
  rw [scan_space hspace] at h
  cases h
  have hcss : (Token.whitespace (c :: t.takeWhile isSpace)).css = c :: t.takeWhile isSpace := rfl
  refine ⟨?_, hproper, fun d hd => ?_, fun hnot => absurd rfl (hnot _),
    fun hnot => absurd rfl (hnot _), fun u hcut => ?_, fun u hcut => ?_⟩
  · exact (List.dropWhile_suffix _).trans (List.suffix_cons c t)
  · rw [hcss] at hd
    exact .inl ((List.cons_subset_cons c (List.takeWhile_subset _)) hd)
  · obtain ⟨htake, hdrop⟩ := Prod.mk.inj (isSteady_digits (p := isSpace) (by decide) t u hcut)
    dsimp only at htake hdrop
    rw [hcss, List.cons_append, scanAll_space hspace, htake, hdrop]
  · have happend := (hcut.append (t.takeWhile isSpace)).cons c
    rw [hsource] at happend
    exact happend

/-- **One token.** A token that is kept is read again as it is written, up to where it is cut. -/
theorem scan_kept {c : Char} {t rest : Text} {a : Token} (hslash : '\\' ∉ c :: t)
    (hnormal : ∀ d ∈ c :: t, isNormal d = true) (h : scan c t = ([a], rest))
    (hkept : a.isKept = true) : Rescans (c :: t) a rest := by
  by_cases hquote : c = '"' ∨ c.toNat = 0x27
  · exact scan_kept_string hslash hnormal hquote h hkept
  cases hspace : isSpace c with
  | true => exact scan_kept_space hslash hspace h
  | false =>
  obtain ⟨body, hkeeps⟩ := scan_kept_front hslash (not_or.mp hquote) hspace h hkept
  have hcss : a.css = c :: body := hkeeps.css
  have hsolid : ∀ d ∈ c :: body, isSpace d = false :=
    List.forall_mem_cons.mpr ⟨hspace, hkeeps.solid⟩
  have hproper := isProper_scan hslash h
  obtain rfl := hkeeps.source
  refine ⟨?_, hproper, fun d hd => ?_, fun _ => ?_, fun _ => ?_, fun u hcut => ?_, fun u hcut => ?_⟩
  · exact (List.suffix_append body rest).trans (List.suffix_cons c _)
  · rw [hcss] at hd
    exact .inl ((List.prefix_append (c :: body) rest).mem hd)
  · rw [hcss]
    exact ⟨c, rfl, hspace⟩
  · rw [hcss]
    exact ⟨_, List.getLast?_eq_some_getLast (List.cons_ne_nil c body), hsolid _ (List.getLast_mem _)⟩
  · rw [hcss, List.cons_append, scanAll_cons, hkeeps.again u hcut]
    rfl
  · rw [hcss]
    exact (hcut.append body).cons c

/-! ## Tokens in a row -/

open Component (Kind cssAfter separator)

/-- A text that is scanned token by token, with no comment in between. -/
inductive Scans : Text → List Token → Prop where
  | nil : Scans [] []
  | cons {t rest : Text} {a : Token} {tokens : List Token} (ha : Rescans t a rest)
      (hkind : a.kind ≠ Kind.char '\\') (h : Scans rest tokens) : Scans t (a :: tokens)

namespace Scans

variable {t : Text} {tokens more : List Token}

/-- So is what some of its tokens were scanned from. -/
theorem exists_suffix {front : List Token} (h : Scans t (front ++ tokens)) :
    ∃ u, u <:+ t ∧ Scans u tokens := by
  induction front generalizing t with
  | nil => exact ⟨t, List.suffix_rfl, h⟩
  | cons a front ih =>
    cases h with
    | cons ha hkind h =>
      obtain ⟨u, hu, hscans⟩ := ih h
      exact ⟨u, hu.trans ha.suffix, hscans⟩

theorem of_mem (h : Scans t tokens) {a : Token} (ha : a ∈ tokens) :
    a.kind ≠ Kind.char '\\' ∧ ∃ u rest, u <:+ t ∧ Rescans u a rest := by
  obtain ⟨front, back, rfl⟩ := List.append_of_mem ha
  obtain ⟨u, hu, hscans⟩ := h.exists_suffix
  cases hscans with
  | cons ha hkind h => exact ⟨hkind, u, _, hu, ha⟩

end Scans

theorem scanAll_comment (t : Text) : scanAll ('/' :: '*' :: '*' :: '/' :: t) = scanAll t := by
  have hscan : scan '/' ('*' :: '*' :: '/' :: t) = ([], t) := by
    have hrange : startsRange ('/' :: '*' :: '*' :: '/' :: t) = false := rfl
    have hident : startsIdent ('/' :: '*' :: '*' :: '/' :: t) = false := rfl
    have hnumeral : splitNumeral? ('/' :: '*' :: '*' :: '/' :: t) = none := rfl
    rw [scan_eq (by decide) hrange rfl, hident, hnumeral]
    rfl
  rw [scanAll_cons, hscan]
  rfl

theorem separator_cases {before : Option Kind} (h : before ≠ some (Kind.char '\\')) (c : Component) :
    separator before c = [] ∨ separator before c = ['/', '*', '*', '/'] := by
  cases before with
  | none => exact .inl rfl
  | some k =>
    have hk : k ≠ Kind.char '\\' := fun heq => h (congrArg some heq)
    cases hclash : k.clash c.kind with
    | true => exact .inr (by simp [separator, hclash])
    | false => exact .inl (Component.separator_eq_nil hclash hk)

section

variable {t : Text} {tokens more : List Token} {before : Option Kind}

/-- **Tokens in a row.** They are read again as they are written, if a breaker or nothing
follows. -/
theorem Scans.scanAll_written (h : Scans t (tokens ++ more))
    (hbefore : before ≠ some (Kind.char '\\')) {e : Text} (he : ∀ c ∈ e.head?, isBreaker c = true) :
    scanAll (cssAfter before (tokens.map .leaf) ++ e) = tokens ++ scanAll e
      ∧ Cut t (cssAfter before (tokens.map .leaf) ++ e) := by
  induction tokens generalizing t before with
  | nil =>
    refine ⟨rfl, ?_⟩
    cases e with
    | nil => exact .nil t
    | cons c e => exact .stop (he c rfl) t e
  | cons a tokens ih =>
    cases h with
    | cons ha hkind h =>
      have hnext : some a.kind ≠ some (Kind.char '\\') := fun heq => hkind (Option.some.inj heq)
      obtain ⟨hrest, hcut⟩ := ih h hnext
      have hscanned := ha.again _ hcut
      rw [hrest] at hscanned
      rw [List.map_cons, cssAfter, List.append_assoc, List.append_assoc]
      rcases separator_cases hbefore (.leaf a) with hnone | hcomment
      · rw [hnone]
        exact ⟨hscanned, ha.cut _ hcut⟩
      · rw [hcomment]
        exact ⟨(scanAll_comment _).trans hscanned, .stop rfl _ _⟩

/-- What is written is from the text, but for quotes, the escapes of them, and comments. -/
theorem Scans.mem_written (h : Scans t (tokens ++ more))
    (hbefore : before ≠ some (Kind.char '\\')) {d : Char}
    (hd : d ∈ cssAfter before (tokens.map .leaf)) : d ∈ t ∨ d ∈ ['"', '\\', '/', '*'] := by
  induction tokens generalizing t before with
  | nil => cases hd
  | cons a tokens ih =>
    cases h with
    | cons ha hkind h =>
      rw [List.map_cons, cssAfter, List.append_assoc, List.mem_append, List.mem_append] at hd
      rcases hd with hd | hd | hd
      · rcases separator_cases hbefore (.leaf a) with hnone | hcomment
        · rw [hnone] at hd
          cases hd
        · rw [hcomment] at hd
          have hmem : ∀ c ∈ ['/', '*', '*', '/'], c ∈ ['"', '\\', '/', '*'] := by decide
          exact .inr (hmem d hd)
      · rcases ha.chars d hd with hmem | rfl | rfl
        · exact .inl hmem
        · exact .inr (by decide)
        · exact .inr (by decide)
      · exact (ih h (fun heq => hkind (Option.some.inj heq)) hd).imp_left (ha.suffix.mem ·)

end

/-! ## Texts without comments -/

theorem exists_readUrlToken_not_kept (t : Text) : ∃ a ∈ (readUrlToken t).1, a.isKept = false := by
  rw [readUrlToken_eq]
  generalize (together (readUrl (t.dropWhile isSpace))).1 = found
  generalize (together (readUrl (t.dropWhile isSpace))).2 = more
  unfold afterUrl
  split
  · exact ⟨_, List.mem_cons_self, rfl⟩
  · exact ⟨_, List.mem_cons_self, rfl⟩
  · exact ⟨_, List.mem_cons_self, rfl⟩
  · split
    · exact ⟨_, List.mem_cons_self, rfl⟩
    · split
      · exact ⟨_, List.mem_cons_self, rfl⟩
      · exact ⟨_, List.mem_cons_self, rfl⟩

/-- What is found is one token, or a token of it is not kept. -/
def IsSingle (found : List Token × Text) : Prop :=
  (∀ a ∈ found.1, a.isKept = true) → ∃ a, found.1 = [a]

theorem isSingle (a : Token) (t : Text) : IsSingle ([a], t) := fun _ => ⟨a, rfl⟩

theorem isSingle_ofName (name t : Text) : IsSingle (ofName name t) := by
  unfold ofName
  split
  · next more =>
    split
    · intro hkept
      obtain ⟨a, ha, hnot⟩ := exists_readUrlToken_not_kept more
      rw [hkept a ha] at hnot
      cases hnot
    · exact isSingle _ _
  · exact isSingle _ _

theorem isSingle_ofNumeral (number t : Text) : IsSingle (ofNumeral number t) := by
  unfold ofNumeral
  split
  · exact isSingle _ _
  · split <;> exact isSingle _ _

theorem isSingle_readStringTokens (quote : Char) (t : Text) :
    IsSingle (readStringTokens quote t) := by
  unfold readStringTokens
  dsimp only
  split
  · exact isSingle _ _
  · intro hkept
    have hend := hkept .endInString (List.mem_cons_of_mem _ (List.mem_singleton_self _))
    cases hend
  · exact isSingle _ _

theorem isSingle_scanMark {c : Char} {t : Text} (h : ['/', '*'].isPrefixOf (c :: t) = false) :
    IsSingle (scanMark c t) := by
  have hcomment : ¬(c = '/' && ['*'].isPrefixOf t) = true := by
    intro hboth
    obtain ⟨hc, ht⟩ := Bool.and_eq_true_iff.mp hboth
    obtain rfl := of_decide_eq_true hc
    rw [List.isPrefixOf, ht] at h
    cases h
  unfold scanMark
  rw [if_neg hcomment]
  split
  · split <;> exact isSingle _ _
  split
  · split <;> exact isSingle _ _
  split
  · exact isSingle_readStringTokens c t
  split
  · exact isSingle _ _
  split
  · exact isSingle _ _
  split
  · exact isSingle _ _
  split <;> exact isSingle _ _

/-- Without a comment every step gives one token. -/
theorem isSingle_scan {c : Char} {t : Text} (h : ['/', '*'].isPrefixOf (c :: t) = false) :
    IsSingle (scan c t) := by
  unfold scan
  split
  · exact isSingle _ _
  split
  · exact isSingle _ _
  split
  · exact isSingle _ _
  split
  · exact isSingle_ofName _ _
  split
  · exact isSingle_ofNumeral _ _
  · exact isSingle_scanMark h

theorem kind_ne_backslash {c : Char} {t rest : Text} {a : Token} (hslash : c ≠ '\\')
    (h : scan c t = ([a], rest)) : a.kind ≠ Kind.char '\\' := by
  intro hkind
  have ha : a = .literal ['\\'] := by
    cases a <;> cases hkind
    rfl
  refine hslash (eq_of_literal_mem_scan (t := t) ?_)
  rw [h, ha]
  exact List.mem_singleton_self _

/-- A text without comments whose tokens are kept is scanned token by token. -/
theorem scans_scanAll {t : Text} (hslash : '\\' ∉ t) (hnormal : ∀ d ∈ t, isNormal d = true)
    (hcomment : ¬['/', '*'] <:+: t) (hkept : ∀ a ∈ scanAll t, a.isKept = true) :
    Scans t (scanAll t) := by
  fun_induction scanAll t with
  | case1 => exact .nil
  | case2 c t ih =>
    obtain ⟨hfirst, hmore⟩ := List.forall_mem_append.mp hkept
    have hnone : ['/', '*'].isPrefixOf (c :: t) = false := by
      refine Bool.eq_false_iff.mpr fun hstarts => hcomment ?_
      exact (List.isPrefixOf_iff_prefix.mp hstarts).isInfix
    obtain ⟨a, ha⟩ := isSingle_scan hnone hfirst
    have hscan : scan c t = ([a], (scan c t).2) := Prod.ext ha rfl
    have hrescans := scan_kept hslash hnormal hscan (hfirst a (by simp [ha]))
    have hkind := kind_ne_backslash (fun heq => hslash (heq ▸ List.mem_cons_self)) hscan
    rw [ha]
    refine .cons hrescans hkind (ih ?_ ?_ ?_ hmore)
    · exact fun hmem => hslash (hrescans.suffix.mem hmem)
    · exact fun d hd => hnormal d (hrescans.suffix.mem hd)
    · exact fun hmem => hcomment (List.IsInfix.trans hmem hrescans.suffix.isInfix)

end CssValues.Token
