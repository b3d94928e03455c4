import CssValues.Proofs.Number.Literal
import Mathlib.Computability.Language

/-!
# The pattern of numbers

The texts of number literals as a regular language, made of single characters by union,
concatenation and repetition. It holds the literals of the grammar with a sign or without one
(`NumberPattern.mem_number_iff`), and these are the texts that the scan for a number takes whole
(`NumberPattern.mem_number_iff_splitNumber?`).
-/

namespace CssValues.NumberPattern

open scoped Computability

/-! ## The pattern -/

/-- The texts of one character with the property `p`. -/
def character (p : Char → Prop) : Language Char := {t | ∃ c, p c ∧ t = [c]}

def digit : Language Char := character (Text.isDigit ·)

/-- One digit or more. -/
def digits : Language Char := digit * digit∗

def point : Language Char := character (· = '.')

def sign : Language Char := 1 + character (· ∈ ['-', '+'])

/-- Digits with a point behind or among them or without one, or a point and digits. -/
def mantissa : Language Char := digits * (1 + point) * digit∗ + point * digits

def exponent : Language Char := character (· ∈ ['e', 'E']) * sign * digits

def unsigned : Language Char := mantissa * (1 + exponent)

def number : Language Char := sign * unsigned

variable {t : Text}

theorem mem_optional_iff {L : Language Char} : t ∈ 1 + L ↔ t = [] ∨ t ∈ L := by
  rw [Language.mem_add, Language.mem_one]

/-! ## Digits -/

theorem mem_digit_kstar_iff : t ∈ digit∗ ↔ ∀ c ∈ t, Text.isDigit c = true := by
  rw [Language.mem_kstar]
  constructor
  · rintro ⟨parts, rfl, hparts⟩ c hc
    obtain ⟨part, hpart, hmem⟩ := List.mem_flatten.mp hc
    obtain ⟨d, hd, rfl⟩ := hparts part hpart
    rwa [List.mem_singleton.mp hmem]
  · intro h
    refine ⟨t.map ([·]), ?_, fun part hpart => ?_⟩
    · rw [← List.flatMap_def, List.flatMap_singleton']
    · obtain ⟨c, hc, rfl⟩ := List.mem_map.mp hpart
      exact ⟨c, h c hc, rfl⟩

theorem mem_digits_iff : t ∈ digits ↔ t ≠ [] ∧ ∀ c ∈ t, Text.isDigit c = true := by
  unfold digits
  rw [Language.mem_mul]
  constructor
  · rintro ⟨_, ⟨c, hc, rfl⟩, rest, hrest, rfl⟩
    exact ⟨by simp, List.forall_mem_cons.mpr ⟨hc, mem_digit_kstar_iff.mp hrest⟩⟩
  · rintro ⟨hne, h⟩
    obtain ⟨c, rest, rfl⟩ := List.exists_cons_of_ne_nil hne
    obtain ⟨hc, hrest⟩ := List.forall_mem_cons.mp h
    exact ⟨[c], ⟨c, hc, rfl⟩, rest, mem_digit_kstar_iff.mpr hrest, rfl⟩

/-! ## Signs and exponents -/

theorem mem_sign_iff : t ∈ sign ↔ ∃ s : Sign, s.text = t := by
  unfold sign
  rw [mem_optional_iff]
  constructor
  · rintro (rfl | ⟨c, hc, rfl⟩)
    · exact ⟨.absent, rfl⟩
    · rcases List.mem_pair.mp hc with rfl | rfl
      · exact ⟨.minus, rfl⟩
      · exact ⟨.plus, rfl⟩
  · rintro ⟨_ | _ | _, rfl⟩
    · exact .inl rfl
    · exact .inr ⟨'+', by simp, rfl⟩
    · exact .inr ⟨'-', by simp, rfl⟩

theorem isExponentMark_iff {c : Char} : isExponentMark c = true ↔ c ∈ ['e', 'E'] := by
  simp [isExponentMark]

theorem mem_exponent_iff : t ∈ exponent ↔ ∃ x : Exponent, x.text = t := by
  unfold exponent
  rw [Language.mem_mul]
  constructor
  · rintro ⟨_, hfront, ds, hds, rfl⟩
    obtain ⟨_, ⟨mark, hmark, rfl⟩, _, hs, rfl⟩ := Language.mem_mul.mp hfront
    obtain ⟨s, rfl⟩ := mem_sign_iff.mp hs
    obtain ⟨hne, hdigit⟩ := mem_digits_iff.mp hds
    exact ⟨⟨mark, s, ds, isExponentMark_iff.mpr hmark, hne, hdigit⟩, rfl⟩
  · rintro ⟨⟨mark, s, ds, hmark, hne, hdigit⟩, rfl⟩
    refine ⟨[mark] ++ s.text, Language.append_mem_mul ?_ (mem_sign_iff.mpr ⟨s, rfl⟩), ds,
      mem_digits_iff.mpr ⟨hne, hdigit⟩, rfl⟩
    exact ⟨mark, isExponentMark_iff.mp hmark, rfl⟩

/-! ## Literals -/

theorem exists_of_mem_mantissa (h : t ∈ mantissa) : ∃ l : Literal, l.mantissa = t := by
  rcases (Language.mem_add _ _ _).mp h with hfront | hpoint
  · obtain ⟨_, hwhole, f, hf, rfl⟩ := Language.mem_mul.mp hfront
    obtain ⟨ds, hds, p, hp, rfl⟩ := Language.mem_mul.mp hwhole
    obtain ⟨hne, hdigit⟩ := mem_digits_iff.mp hds
    have hdigits : ds ++ f ≠ [] := by simp [hne]
    have hall := List.forall_mem_append.mpr ⟨hdigit, mem_digit_kstar_iff.mp hf⟩
    rcases mem_optional_iff.mp hp with rfl | ⟨_, rfl, rfl⟩
    · refine ⟨⟨ds ++ f, none, none, by simpa using hdigits, by simpa using hall⟩, ?_⟩
      simp [Literal.mantissa, Literal.pointText]
    · refine ⟨⟨ds, some f, none, hdigits, hall⟩, ?_⟩
      simp [Literal.mantissa, Literal.pointText]
  · obtain ⟨_, ⟨_, rfl, rfl⟩, f, hf, rfl⟩ := Language.mem_mul.mp hpoint
    obtain ⟨hne, hdigit⟩ := mem_digits_iff.mp hf
    exact ⟨⟨[], some f, none, hne, hdigit⟩, rfl⟩

theorem mantissa_mem (l : Literal) : l.mantissa ∈ mantissa := by
  cases hfraction : l.fraction with
  | none =>
    rw [Literal.mantissa, Literal.pointText_of_none hfraction]
    have hne : l.whole ≠ [] := by simpa using Literal.isEmpty_whole hfraction
    have hwhole := mem_digits_iff.mpr ⟨hne, l.isDigit_of_mem_whole⟩
    have hnone : [] ∈ 1 + point := mem_optional_iff.mpr (.inl rfl)
    have hfront := Language.append_mem_mul hwhole hnone
    rw [List.append_nil] at hfront
    exact .inl (Language.append_mem_mul hfront (Language.nil_mem_kstar _))
  | some f =>
    rw [Literal.mantissa, Literal.pointText_of_some hfraction]
    have hf := l.isDigit_of_mem_fraction hfraction
    by_cases hwhole : l.whole = []
    · have hne := l.ne_nil
      rw [hwhole, hfraction] at hne
      rw [hwhole]
      exact .inr ⟨['.'], ⟨'.', rfl, rfl⟩, f, mem_digits_iff.mpr ⟨hne, hf⟩, rfl⟩
    · have hdigits := mem_digits_iff.mpr ⟨hwhole, l.isDigit_of_mem_whole⟩
      have hpoint : ['.'] ∈ 1 + point := mem_optional_iff.mpr (.inr ⟨'.', rfl, rfl⟩)
      refine .inl ⟨_, Language.append_mem_mul hdigits hpoint, f, mem_digit_kstar_iff.mpr hf, ?_⟩
      simp

/-- A mantissa takes an exponent or none. -/
theorem mem_unsigned_iff : t ∈ unsigned ↔ ∃ l : Literal, l.text = t := by
  unfold unsigned
  rw [Language.mem_mul]
  constructor
  · rintro ⟨_, hm, e, he, rfl⟩
    obtain ⟨l, rfl⟩ := exists_of_mem_mantissa hm
    obtain ⟨x, rfl⟩ : ∃ x : Option Exponent, x.elim [] Exponent.text = e := by
      rcases mem_optional_iff.mp he with rfl | hsome
      · exact ⟨none, rfl⟩
      · obtain ⟨x, rfl⟩ := mem_exponent_iff.mp hsome
        exact ⟨some x, rfl⟩
    exact ⟨⟨l.whole, l.fraction, x, l.ne_nil, l.isDigit⟩, rfl⟩
  · rintro ⟨l, rfl⟩
    refine ⟨l.mantissa, mantissa_mem l, l.exponentText, mem_optional_iff.mpr ?_, rfl⟩
    unfold Literal.exponentText
    cases l.exponent with
    | none => exact .inl rfl
    | some x => exact .inr (mem_exponent_iff.mpr ⟨x, rfl⟩)

/-- The pattern holds the literals with a sign or without one. -/
theorem mem_number_iff : t ∈ number ↔ ∃ (s : Sign) (l : Literal), t = s.text ++ l.text := by
  unfold number
  rw [Language.mem_mul]
  constructor
  · rintro ⟨_, hs, _, hl, rfl⟩
    obtain ⟨s, rfl⟩ := mem_sign_iff.mp hs
    obtain ⟨l, rfl⟩ := mem_unsigned_iff.mp hl
    exact ⟨s, l, rfl⟩
  · rintro ⟨s, l, rfl⟩
    exact Language.append_mem_mul (mem_sign_iff.mpr ⟨s, rfl⟩) (mem_unsigned_iff.mpr ⟨l, rfl⟩)

/-- **Scanning.** The scan for a number takes a text whole just if it matches the pattern. -/
theorem mem_number_iff_splitNumber? : t ∈ number ↔ splitNumber? t = some (t, []) := by
  rw [mem_number_iff]
  constructor
  · rintro ⟨s, l, rfl⟩
    have hsplit := l.splitNumber?_text s endsNumeral_nil
    rwa [List.append_nil] at hsplit
  · intro h
    obtain ⟨s, l, htext, -⟩ := Literal.exists_of_splitNumber? h
    exact ⟨s, l, htext.symm⟩

end CssValues.NumberPattern
