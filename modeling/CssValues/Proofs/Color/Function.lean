import CssValues.Color.Reading
import CssValues.Proofs.Text.Digits
import CssValues.Proofs.Text.Lowercase
import CssValues.Proofs.Text.Trim
import Mathlib.Data.List.Basic

/-!
# Colours written in the form of a function

`RgbText` is a colour with `rgb` or `rgba` in any case, blanks wherever they may be, and an opacity or
none. Such a text comes apart into the digits of its channels (`RgbText.splitRgb?_text`).
-/

namespace CssValues

/-! ## What may stand where -/

/-- Digits of any script with blanks around them. -/
structure ChannelText where
  before : Text.Blanks
  digits : Text
  after : Text.Blanks
  ne_nil : digits ≠ []
  isDigit : ∀ c ∈ digits, Text.isDigit c = true

/-- An opacity with blanks around it: digits, or a point and digits with or without digits in front. -/
structure AlphaText where
  before : Text.Blanks
  whole : Text
  /-- The digits behind the point, if there is a point. -/
  fraction : Option Text
  after : Text.Blanks
  ne_nil : fraction.getD whole ≠ []
  isDigit : ∀ c ∈ whole ++ fraction.getD [], Text.isDigit c = true

/-- A colour in the form of a function, and the blanks around it. -/
structure RgbText where
  before : Text.Blanks
  name : Text
  red : ChannelText
  green : ChannelText
  blue : ChannelText
  alpha : Option AlphaText
  after : Text.Blanks
  isName : Text.asciiLower name = ['r', 'g', 'b'] ∨ Text.asciiLower name = ['r', 'g', 'b', 'a']

/-! ## Channels -/

namespace ChannelText

/-- The lower end of a channel. -/
def zero : ChannelText := ⟨.none, ['0'], .none, by decide, by decide⟩

variable (c : ChannelText)

def text : Text := c.before.val ++ (c.digits ++ c.after.val)

/-- The natural number that is written. -/
def value : Nat := Text.ofDigits c.digits

/-- Whether the digits are no more than an integer may be written with. -/
def IsShort : Prop := c.digits.length ≤ maxDigits

theorem splitDigits?_text {rest : Text}
    (h : ∀ d ∈ rest.head?, Text.isDigit d = false ∧ Text.isBlank d = false) :
    Color.splitDigits? (c.text ++ rest) = some (c.digits, rest) := by
  have hfirst : ∀ d ∈ (c.digits ++ (c.after.val ++ rest)).head?, Text.isBlank d = false := by
    intro d hd
    rw [List.head?_append_of_ne_nil _ c.ne_nil] at hd
    exact Text.isBlank_of_isDigit (c.isDigit d (List.mem_of_mem_head? hd))
  have hstop : ∀ d ∈ (c.after.val ++ rest).head?, Text.isDigit d = false := by
    intro d hd
    rcases Text.head?_append_cases hd with hafter | hrest
    · exact Text.isDigit_of_isBlank (c.after.property d (List.mem_of_mem_head? hafter))
    · exact (h d hrest).1
  have hend : ∀ d ∈ rest.head?, Text.isBlank d = false := fun d hd => (h d hd).2
  have hne : c.digits.isEmpty = false := by simpa using c.ne_nil
  unfold Color.splitDigits? text
  rw [List.append_assoc, List.append_assoc, Text.dropWhile_append_stop c.before.property hfirst]
  simp only [Text.takeWhile_append_stop c.isDigit hstop, Text.dropWhile_append_stop c.isDigit hstop,
    Text.dropWhile_append_stop c.after.property hend, hne, Bool.false_eq_true, if_false]

theorem splitDigits?_comma (rest : Text) :
    Color.splitDigits? (c.text ++ ',' :: rest) = some (c.digits, ',' :: rest) := by
  refine c.splitDigits?_text ?_
  rintro d ⟨⟩
  decide

end ChannelText

/-! ## The opacity -/

/-- Neither a blank nor the closing parenthesis continues a number. -/
theorem head?_close (b : Text.Blanks) :
    ∀ d ∈ (b.val ++ [')']).head?, Text.isDigit d = false ∧ d ≠ '.' := by
  intro d hd
  rcases Text.head?_append_cases hd with hblank | hclose
  · have hblank := b.property d (List.mem_of_mem_head? hblank)
    refine ⟨Text.isDigit_of_isBlank hblank, ?_⟩
    rintro rfl
    exact absurd hblank (by decide)
  · cases hclose
    decide

theorem dropWhile_close (b : Text.Blanks) : (b.val ++ [')']).dropWhile Text.isBlank = [')'] := by
  refine Text.dropWhile_append_stop b.property ?_
  rintro d ⟨⟩
  decide

/-- Digits are an opacity. -/
theorem isAlphaEnd_whole (before after : Text.Blanks) {whole : Text} (hne : whole ≠ [])
    (hdigit : ∀ d ∈ whole, Text.isDigit d = true) :
    Color.isAlphaEnd (before.val ++ (whole ++ (after.val ++ [')']))) = true := by
  have hclose := head?_close after
  have hstop : ∀ d ∈ (after.val ++ [')']).head?, Text.isDigit d = false := fun d hd => (hclose d hd).1
  have hfirst : ∀ d ∈ (whole ++ (after.val ++ [')'])).head?, Text.isBlank d = false := by
    intro d hd
    rw [List.head?_append_of_ne_nil _ hne] at hd
    exact Text.isBlank_of_isDigit (hdigit d (List.mem_of_mem_head? hd))
  simp only [Color.isAlphaEnd, Text.dropWhile_append_stop before.property hfirst,
    Text.takeWhile_append_stop hdigit hstop, Text.dropWhile_append_stop hdigit hstop]
  split
  · next rest hdot =>
    rw [hdot] at hclose
    exact absurd rfl (hclose '.' rfl).2
  · rw [dropWhile_close]
    simpa using hne

/-- And so are a point and digits, with digits in front of them or without. -/
theorem isAlphaEnd_point (before after : Text.Blanks) {whole fraction : Text} (hne : fraction ≠ [])
    (hwhole : ∀ d ∈ whole, Text.isDigit d = true)
    (hfraction : ∀ d ∈ fraction, Text.isDigit d = true) :
    Color.isAlphaEnd (before.val ++ (whole ++ '.' :: (fraction ++ (after.val ++ [')'])))) = true := by
  have hstop : ∀ d ∈ (after.val ++ [')']).head?, Text.isDigit d = false :=
    fun d hd => (head?_close after d hd).1
  have hpoint : ∀ d ∈ ('.' :: (fraction ++ (after.val ++ [')']))).head?,
      Text.isDigit d = false := by
    rintro d ⟨⟩
    decide
  have hfirst : ∀ d ∈ (whole ++ '.' :: (fraction ++ (after.val ++ [')']))).head?,
      Text.isBlank d = false := by
    intro d hd
    rcases Text.head?_append_cases hd with hw | hdot
    · exact Text.isBlank_of_isDigit (hwhole d (List.mem_of_mem_head? hw))
    · cases hdot
      decide
  simp only [Color.isAlphaEnd, Text.dropWhile_append_stop before.property hfirst,
    Text.dropWhile_append_stop hwhole hpoint, Text.takeWhile_append_stop hfraction hstop,
    Text.dropWhile_append_stop hfraction hstop, dropWhile_close]
  simpa using hne

namespace AlphaText

variable (a : AlphaText)

/-- The point and the digits behind it. -/
def pointText : Text := a.fraction.elim [] ('.' :: ·)

def text : Text := a.before.val ++ (a.whole ++ (a.pointText ++ a.after.val))

theorem isAlphaEnd_text : Color.isAlphaEnd (a.text ++ [')']) = true := by
  obtain ⟨before, whole, fraction, after, hne, hdigit⟩ := a
  have hwhole : ∀ d ∈ whole, Text.isDigit d = true := fun d hd =>
    hdigit d (List.mem_append_left _ hd)
  unfold text pointText
  cases fraction with
  | none =>
    simp only [Option.elim_none, List.nil_append, List.append_assoc]
    exact isAlphaEnd_whole before after hne hwhole
  | some fraction =>
    simp only [Option.elim_some, List.cons_append, List.append_assoc]
    exact isAlphaEnd_point before after hne hwhole fun d hd => hdigit d (List.mem_append_right _ hd)

end AlphaText

/-! ## The whole literal -/

namespace RgbText

variable (r : RgbText)

/-- The comma and the opacity behind it. -/
def alphaText : Text := r.alpha.elim [] (',' :: ·.text)

/-- What stands between the parentheses, and the closing one. -/
def listText : Text :=
  r.red.text ++ ',' :: (r.green.text ++ ',' :: (r.blue.text ++ (r.alphaText ++ [')'])))

def text : Text := r.before.val ++ (r.name ++ '(' :: r.listText) ++ r.after.val

def channels : List ChannelText := [r.red, r.green, r.blue]

/-- The letters of the name. -/
theorem exists_name : ∃ a b c t, r.name = a :: b :: c :: t ∧ Text.asciiLower [a, b, c] = ['r', 'g', 'b']
    ∧ (t = [] ∨ ∃ d, t = [d] ∧ d.toLower = 'a') := by
  obtain ⟨before, name, red, green, blue, alpha, after, hname⟩ := r
  dsimp only
  rcases hname with hrgb | hrgba
  · obtain ⟨a, s, rfl, ha, hs⟩ := List.map_eq_cons_iff.mp hrgb
    obtain ⟨b, s, rfl, hb, hs⟩ := List.map_eq_cons_iff.mp hs
    obtain ⟨c, s, rfl, hc, hs⟩ := List.map_eq_cons_iff.mp hs
    refine ⟨a, b, c, s, rfl, ?_, .inl (List.map_eq_nil_iff.mp hs)⟩
    simp [Text.asciiLower, ha, hb, hc]
  · obtain ⟨a, s, rfl, ha, hs⟩ := List.map_eq_cons_iff.mp hrgba
    obtain ⟨b, s, rfl, hb, hs⟩ := List.map_eq_cons_iff.mp hs
    obtain ⟨c, s, rfl, hc, hs⟩ := List.map_eq_cons_iff.mp hs
    obtain ⟨d, rfl, hd⟩ := List.map_eq_singleton_iff.mp hs
    refine ⟨a, b, c, [d], rfl, ?_, .inr ⟨d, rfl, hd⟩⟩
    simp [Text.asciiLower, ha, hb, hc]

theorem trim_text : r.text.trim = r.name ++ '(' :: r.listText := by
  obtain ⟨a, b, c, t, hname, hlower, -⟩ := r.exists_name
  have hletter : Text.isLetter a = true := by
    refine Text.isLetter_of_toLower ?_
    rw [(List.cons.inj hlower).1]
    decide
  have hprinting := Text.printing_of_isLetter hletter
  rw [Text.trim, text, Text.trimWhere_append r.before.property r.after.property]
  refine Text.trimWhere_of_ends ?_ ?_
  · rw [hname]
    rintro d ⟨⟩
    exact Text.isBlank_of_printing hprinting.1 hprinting.2
  · intro d hd
    simp [listText, List.getLast?_append, List.getLast?_cons] at hd
    rw [← hd]
    decide

theorem dropOpening?_text : Color.dropOpening? (r.name ++ '(' :: r.listText) = some r.listText := by
  obtain ⟨a, b, c, t, hname, hlower, ht⟩ := r.exists_name
  obtain ⟨ha, hb, hc⟩ : a.toLower = 'r' ∧ b.toLower = 'g' ∧ c.toLower = 'b' := by
    simpa [Text.asciiLower] using hlower
  unfold Color.dropOpening?
  rw [hname]
  rcases ht with rfl | ⟨d, rfl, hd⟩
  · rw [if_neg, if_pos]
    · rfl
    · simp [Text.asciiLower, ha, hb, hc]
    · simp [Text.asciiLower]
  · rw [if_pos]
    · rfl
    · simp [Text.asciiLower, ha, hb, hc, hd]

theorem isListEnd_text : Color.isListEnd (r.alphaText ++ [')']) = true := by
  unfold alphaText
  cases r.alpha with
  | none => rfl
  | some a => exact a.isAlphaEnd_text

theorem splitRgb?_text :
    Color.splitRgb? r.text = some (r.red.digits, r.green.digits, r.blue.digits) := by
  have hblue : Color.splitDigits? (r.blue.text ++ (r.alphaText ++ [')']))
      = some (r.blue.digits, r.alphaText ++ [')']) := by
    refine r.blue.splitDigits?_text ?_
    unfold alphaText
    cases r.alpha with
    | none =>
      rintro d ⟨⟩
      decide
    | some a =>
      rintro d ⟨⟩
      decide
  have hcomma : ∀ rest : Text, Color.dropComma? (',' :: rest) = some rest := fun _ => rfl
  unfold Color.splitRgb?
  rw [r.trim_text, r.dropOpening?_text]
  simp only [listText, Option.bind_eq_bind, Option.bind_some, ChannelText.splitDigits?_comma,
    hcomma, hblue, r.isListEnd_text, if_true]

end RgbText

end CssValues
