import CssValues.Component.Css
import CssValues.Proofs.Spelling

/-!
# Simple tokens

The tokens of texts that have figures, blanks and parentheses only. Each is written as it was read,
unless its unit could be taken for an exponent (`Token.IsSimple.css_eq`).
-/

namespace CssValues

/-- A figure or a blank. -/
def isPlain (c : Char) : Bool := isFigure c || Text.isBlank c

/-- A figure, a blank or a parenthesis. -/
def isTame (c : Char) : Bool := isPlain c || c == '(' || c == ')'

/-- The characters that start something that no spelling of a value has. -/
def wildChars : Text :=
  ['\\', '@', '#', '"', Char.ofNat 0x27, '/', '<', '>', '|', '~', '^', '$', '*', '[', ']',
    Char.ofNat 0x7B, Char.ofNat 0x7D, 'u', 'U', '!', ';']

theorem not_mem_wildChars {c : Char} (h : isTame c = true) : c ∉ wildChars := by
  have hall : ∀ d ∈ wildChars, isTame d = false := by decide
  intro hc
  rw [hall c hc] at h
  cases h

theorem Token.isBlank_of_isSpace {c : Char} (h : isSpace c = true) : Text.isBlank c = true := by
  simp only [isSpace, Bool.or_eq_true, beq_iff_eq] at h
  rcases h with (rfl | rfl) | rfl <;> decide

/-- A class of characters without spaces. -/
theorem Token.isSpace_eq_false {p : Char → Bool} (hp : ∀ c ∈ [' ', '\n', '\t'], p c = false)
    {c : Char} (hc : p c = true) : isSpace c = false := by
  cases hspace : isSpace c with
  | false => rfl
  | true =>
    have hmem : c ∈ [' ', '\n', '\t'] := by simpa [isSpace, or_assoc] using hspace
    rw [hp c hmem] at hc
    cases hc

theorem isTame_of_isPlain {c : Char} (h : isPlain c = true) : isTame c = true := by
  simp [isTame, h]

theorem Spelled.isTame {t : Text} (h : Spelled t) : ∀ c ∈ t, CssValues.isTame c = true := by
  intro c hc
  cases h with
  | figures _ h => exact isTame_of_isPlain (by simp [isPlain, h c hc])
  | calculation _ h =>
    rcases List.mem_append.mp hc with hc | hc
    · rcases List.mem_append.mp hc with hc | hc
      · have hopening : ∀ d ∈ CalcSource.opening, CssValues.isTame d = true := by decide
        exact hopening c hc
      · exact isTame_of_isPlain ((Bool.or_eq_true _ _).mpr (h c hc))
    · exact List.mem_singleton.mp hc ▸ rfl

/-- A spelling has no slash and no backslash. -/
theorem Spelled.slash_not_mem {t : Text} (h : Spelled t) : '/' ∉ t ∧ '\\' ∉ t :=
  ⟨fun hmem => not_mem_wildChars (h.isTame _ hmem) (by decide),
    fun hmem => not_mem_wildChars (h.isTame _ hmem) (by decide)⟩

namespace Token

/-! ## What a token was read from -/

/-- The text that a token was read from, if it was read without escapes. -/
def source : Token → Text
  | .ident name => name
  | .function name => name ++ ['(']
  | .dimension text unitName => text ++ unitName
  | token => token.css

/-- Whether a token is a number whose unit could be taken for an exponent. -/
def hasExponentUnit : Token → Bool
  | .dimension _ (c :: rest) => isExponentMark c && (rest.isEmpty || ['-'].isPrefixOf rest)
  | _ => false

/-- A name that an identifier may have without escapes. -/
def IsName (name : Text) : Prop := startsIdent name = true ∧ ∀ c ∈ name, isNameChar c = true

/-- The tokens of figures, blanks and parentheses. -/
inductive IsSimple : Token → Prop where
  | whitespace {t : Text} (h : ∀ c ∈ t, isSpace c = true) : IsSimple (.whitespace t)
  | ident {name : Text} (h : IsName name) : IsSimple (.ident name)
  | function {name : Text} (h : IsName name) : IsSimple (.function name)
  | number {t : Text} (h : ∀ c ∈ t, isFigure c = true) : IsSimple (.number t)
  | percentage {t : Text} (h : ∀ c ∈ t, isFigure c = true) : IsSimple (.percentage t)
  | dimension {t unitName : Text} (h : ∀ c ∈ t, isFigure c = true) (hname : IsName unitName) :
      IsSimple (.dimension t unitName)
  | opening : IsSimple (.opening .round)
  | closing : IsSimple (.closing .round)
  | literal {c : Char} (h : isPlain c = true) : IsSimple (.literal [c])

/-! ## Names -/

theorem ne_backslash_of_isNameChar {c : Char} (h : isNameChar c = true) : c ≠ '\\' := by
  rintro rfl
  exact absurd h (by decide)

theorem nameCss_eq {t : Text} (h : ∀ c ∈ t, isNameChar c = true) : nameCss t = t := by
  induction t with
  | nil => rfl
  | cons c t ih =>
    rw [nameCss, List.flatMap_cons, nameCharCss, if_pos (h c List.mem_cons_self)]
    exact congrArg (c :: ·) (ih fun d hd => h d (List.mem_cons_of_mem _ hd))

theorem startsEscape_of_ne {c : Char} {t : Text} (h : c ≠ '\\') :
    startsEscape (c :: t) = false := by
  unfold startsEscape
  split
  · rfl
  · next heq => exact absurd (List.cons.inj heq).1 h
  · rfl

theorem startsIdent_cons {c : Char} {t : Text} (hdash : c ≠ '-') (hslash : c ≠ '\\') :
    startsIdent (c :: t) = isNameStart c := by
  unfold startsIdent
  split
  · next heq => cases heq
  · next heq => exact absurd (List.cons.inj heq).1 hdash
  · next heq => exact absurd (List.cons.inj heq).1 hdash
  · next heq => exact absurd (List.cons.inj heq).1 hdash
  · next heq =>
    obtain ⟨rfl, rfl⟩ := List.cons.inj heq
    rw [startsEscape_of_ne hslash, Bool.or_false]

theorem startsIdent_dash {c : Char} {t : Text} (hslash : c ≠ '\\') :
    startsIdent ('-' :: c :: t) = (c == '-' || isNameStart c) := by
  by_cases hdash : c = '-'
  · rw [hdash]
    rfl
  · have hbeq : (c == '-') = false := beq_eq_false_iff_ne.mpr hdash
    unfold startsIdent
    split
    · next heq => cases heq
    · next heq => exact absurd (List.cons.inj (List.cons.inj heq).2).1 hdash
    · next heq =>
      obtain ⟨rfl, rfl⟩ := List.cons.inj (List.cons.inj heq).2
      rw [startsEscape_of_ne hslash, Bool.or_false, hbeq, Bool.false_or]
    · next heq => cases heq
    · next hnot _ heq =>
      obtain ⟨rfl, rfl⟩ := List.cons.inj heq
      exact (hnot c t rfl rfl).elim

theorem isSpace_of_isNameChar {c : Char} (h : isNameChar c = true) : isSpace c = false :=
  isSpace_eq_false (by decide) h

theorem IsName.startsIdent_append {name : Text} (h : IsName name) (t : Text) :
    startsIdent (name ++ t) = true := by
  obtain ⟨hstart, hchars⟩ := h
  cases name with
  | nil => cases hstart
  | cons c name =>
    have hslash {d : Char} (hd : d ∈ c :: name) : d ≠ '\\' :=
      ne_backslash_of_isNameChar (hchars d hd)
    by_cases hdash : c = '-'
    · subst hdash
      cases name with
      | nil => cases hstart
      | cons d name =>
        rw [startsIdent_dash (hslash (by simp))] at hstart
        exact (startsIdent_dash (hslash (by simp))).trans hstart
    · rw [startsIdent_cons hdash (hslash (by simp))] at hstart
      exact (startsIdent_cons hdash (hslash (by simp))).trans hstart

/-- A name that an identifier may have is written as it is. -/
theorem identCss_eq {name : Text} (h : IsName name) : identCss name = name := by
  obtain ⟨hstart, hchars⟩ := h
  have hrest {t : Text} (ht : ∀ c ∈ t, c ∈ name) : nameCss t = t :=
    nameCss_eq fun c hc => hchars c (ht c hc)
  have hslash {c : Char} (hc : c ∈ name) : c ≠ '\\' := ne_backslash_of_isNameChar (hchars c hc)
  unfold identCss
  split
  · rfl
  · exact absurd hstart (by decide)
  · rw [hrest fun c hc => by simp [hc]]
  · next c rest hdash =>
    have hname : isNameStart c = true := by
      rw [startsIdent_dash (hslash (by simp)), beq_eq_false_iff_ne.mpr hdash] at hstart
      exact hstart
    rw [firstCharCss, if_pos hname, hrest fun d hd => by simp [hd]]
    rfl
  · next c rest hsingle hdouble hdash =>
    have hname : isNameStart c = true := by
      rw [startsIdent_cons _ (hslash (by simp))] at hstart
      · exact hstart
      · rintro rfl
        cases rest with
        | nil => exact hsingle rfl rfl
        | cons d rest => exact hdash d rest rfl rfl
    rw [firstCharCss, if_pos hname, hrest fun d hd => by simp [hd]]
    rfl

/-! ## Writing -/

namespace IsSimple

variable {token : Token}

/-- A simple token is written as it was read unless its unit could be taken for an exponent. -/
theorem css_eq (h : token.IsSimple) (hunit : token.hasExponentUnit = false) :
    token.css = token.source := by
  cases h with
  | ident h => exact identCss_eq h
  | function h => exact congrArg (· ++ ['(']) (identCss_eq h)
  | @dimension t unitName _ hname =>
    refine congrArg (t ++ ·) ?_
    cases unitName with
    | nil => rfl
    | cons c rest =>
      rw [hasExponentUnit] at hunit
      rw [unitCss, if_neg (by simp [hunit]), identCss_eq hname]
  | whitespace _ => rfl
  | number _ => rfl
  | percentage _ => rfl
  | opening => rfl
  | closing => rfl
  | literal _ => rfl

/-- A unit that could be taken for an exponent is written with an escape. -/
theorem backslash_mem_css (hunit : token.hasExponentUnit = true) : '\\' ∈ token.css := by
  unfold hasExponentUnit at hunit
  split at hunit
  · next text c rest =>
    have hescape : '\\' ∈ unitCss (c :: rest) := by
      rw [unitCss, if_pos hunit]
      simp
    exact List.mem_append_right text hescape
  · cases hunit

end IsSimple

end Token

end CssValues
