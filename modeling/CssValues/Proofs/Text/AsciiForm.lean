import CssValues.Proofs.Text.Digits
import CssValues.Proofs.Text.Folding

/-!
# Texts in ASCII

Digits of all scripts, blanks beyond ASCII and the Kelvin sign have characters in ASCII that readers of
values take for the same (`Text.asciiForm`). But for the Kelvin sign this is a transcription
(`Text.isTranscription_plain`).
-/

namespace CssValues.Text

variable {c : Char}

theorem lt_ten_of_digitValue? {k : Nat} (h : digitValue? c = some k) : k < 10 := by
  obtain ⟨first, hfirst, rfl⟩ := Option.map_eq_some_iff.mp h
  have hrange := List.find?_some hfirst
  simp only [Bool.and_eq_true, decide_eq_true_eq] at hrange
  omega

theorem isDigit_of_digitValue? {k : Nat} (h : digitValue? c = some k) : isDigit c = true := by
  rw [isDigit, h]
  rfl

theorem isLetter_of_digitValue? {k : Nat} (h : digitValue? c = some k) : isLetter c = false := by
  rw [← Bool.not_eq_true]
  intro hletter
  rw [digitValue?_of_isLetter hletter] at h
  cases h

/-! ## Digits and blanks -/

/-- A digit as the ASCII digit of its value, and a blank beyond ASCII as a space. -/
def plain (c : Char) : Char :=
  match digitValue? c with
  | some k => Nat.digitChar k
  | none => if isBlank c && 0x7F < c.toNat then ' ' else c

theorem plain_cases (c : Char) : (∃ k < 10, digitValue? c = some k ∧ plain c = Nat.digitChar k)
    ∨ (digitValue? c = none ∧ isBlank c = true ∧ 0x7F < c.toNat ∧ plain c = ' ')
    ∨ (digitValue? c = none ∧ ¬(isBlank c = true ∧ 0x7F < c.toNat) ∧ plain c = c) := by
  unfold plain
  cases hvalue : digitValue? c with
  | some k => exact .inl ⟨k, lt_ten_of_digitValue? hvalue, rfl, rfl⟩
  | none =>
    right
    have hcondition : (isBlank c && decide (0x7F < c.toNat)) = true
        ↔ isBlank c = true ∧ 0x7F < c.toNat := by
      rw [Bool.and_eq_true, decide_eq_true_iff]
    by_cases hblank : isBlank c = true ∧ 0x7F < c.toNat
    · exact .inl ⟨rfl, hblank.1, hblank.2, if_pos (hcondition.mpr hblank)⟩
    · exact .inr ⟨rfl, hblank, if_neg (mt hcondition.mp hblank)⟩

/-- ASCII digits are neither blank nor letters. -/
theorem digitChar_facts : ∀ k < 10, digitValue? (Nat.digitChar k) = some k
    ∧ isBlank (Nat.digitChar k) = false ∧ isWhiteSpace (Nat.digitChar k) = false
    ∧ isLetter (Nat.digitChar k) = false ∧ (Nat.digitChar k).toNat < 0x80 := by decide

theorem isWhiteSpace_of_isBlank (hblank : isBlank c = true) (hascii : 0x7F < c.toNat) :
    isWhiteSpace c = true := by
  simp only [isBlank, Bool.or_eq_true, Bool.and_eq_true, decide_eq_true_eq] at hblank
  exact hblank.resolve_right fun h => by omega

theorem isWhiteSpace_eq_false (h : isBlank c = false) : isWhiteSpace c = false :=
  (Bool.or_eq_false_iff.mp h).1

theorem isLetter_of_isBlank (h : isBlank c = true) : isLetter c = false := by
  rw [← Bool.not_eq_true]
  intro hletter
  obtain ⟨hlow, hhigh⟩ := printing_of_isLetter hletter
  rw [isBlank_of_printing hlow hhigh] at h
  cases h

/-- No other character becomes one in ASCII that is neither a digit nor a space. -/
theorem plain_eq_iff {d : Char} (hdigit : digitValue? d = none) (hspace : d ≠ ' ')
    (hascii : d.toNat < 0x80) : plain c = d ↔ c = d := by
  rcases plain_cases c with ⟨k, hk, hvalue, hplain⟩ | ⟨-, -, hbeyond, hplain⟩ | ⟨-, -, hplain⟩
  · rw [hplain]
    refine iff_of_false (fun h => ?_) fun h => ?_
    · rw [← h, (digitChar_facts k hk).1] at hdigit
      cases hdigit
    · rw [h, hdigit] at hvalue
      cases hvalue
  · rw [hplain]
    refine iff_of_false (fun h => hspace h.symm) fun h => ?_
    rw [h] at hbeyond
    omega
  · rw [hplain]

/-- Nor does any other text become one of such characters. -/
theorem map_plain_eq {w : Text} (hw : ∀ d ∈ w, digitValue? d = none ∧ d ≠ ' ' ∧ d.toNat < 0x80)
    {t : Text} (h : t.map plain = w) : t = w := by
  induction t generalizing w with
  | nil => exact h
  | cons c t ih =>
    cases w with
    | nil => cases h
    | cons d w =>
      obtain ⟨hd, hrest⟩ := List.forall_mem_cons.mp hw
      obtain ⟨hc, ht⟩ := List.cons.inj h
      rw [(plain_eq_iff hd.1 hd.2.1 hd.2.2).mp hc, ih hrest ht]

theorem isTranscription_plain : IsTranscription plain where
  digit c := by
    rcases plain_cases c with ⟨k, hk, hvalue, hplain⟩ | ⟨hvalue, -, -, hplain⟩ | ⟨-, -, hplain⟩
    · rw [hplain, hvalue, (digitChar_facts k hk).1]
    · rw [hplain, hvalue]
      rfl
    · rw [hplain]
  blank c := by
    rcases plain_cases c with ⟨k, hk, hvalue, hplain⟩ | ⟨-, hblank, -, hplain⟩ | ⟨-, -, hplain⟩
    · rw [hplain, (digitChar_facts k hk).2.1, isBlank_of_isDigit (isDigit_of_digitValue? hvalue)]
    · rw [hplain, hblank]
      rfl
    · rw [hplain]
  white c := by
    rcases plain_cases c with ⟨k, hk, hvalue, hplain⟩ | ⟨-, hblank, hbeyond, hplain⟩ | ⟨-, -, hplain⟩
    · rw [hplain, (digitChar_facts k hk).2.2.1,
        isWhiteSpace_eq_false (isBlank_of_isDigit (isDigit_of_digitValue? hvalue))]
    · rw [hplain, isWhiteSpace_of_isBlank hblank hbeyond]
      rfl
    · rw [hplain]
  letter c := by
    rcases plain_cases c with ⟨k, hk, hvalue, hplain⟩ | ⟨-, hblank, -, hplain⟩ | ⟨-, -, hplain⟩
    · rw [hplain, (digitChar_facts k hk).2.2.2.1, isLetter_of_digitValue? hvalue]
    · rw [hplain, isLetter_of_isBlank hblank]
      rfl
    · rw [hplain]
  fold c hletter := by
    rcases plain_cases c with ⟨k, -, hvalue, -⟩ | ⟨-, hblank, -, -⟩ | ⟨-, -, hplain⟩
    · rw [isLetter_of_digitValue? hvalue] at hletter
      cases hletter
    · rw [isLetter_of_isBlank hblank] at hletter
      cases hletter
    · rw [hplain]
  space := rfl
  mark c d hd := by
    have hmark : ∀ d ∈ marks, digitValue? d = none ∧ d ≠ ' ' ∧ d.toNat < 0x80 := by decide
    obtain ⟨hdigit, hspace, hascii⟩ := hmark d hd
    exact plain_eq_iff hdigit hspace hascii

/-- ASCII stays as it is. -/
theorem plain_of_ascii (h : c.toNat < 0x80) : plain c = c := by
  have hall : ∀ n < 0x80, plain (Char.ofNat n) = Char.ofNat n := by decide
  have hc := hall c.toNat h
  rwa [Char.ofNat_toNat] at hc

/-- A character of ASCII, a digit or a blank. -/
def HasPlain (c : Char) : Prop := c.toNat < 0x80 ∨ isDigit c = true ∨ isBlank c = true

theorem hasPlain_of_isDigit (h : isDigit c = true) : HasPlain c := .inr (.inl h)

theorem hasPlain_of_isBlank (h : isBlank c = true) : HasPlain c := .inr (.inr h)

theorem HasPlain.ascii (h : HasPlain c) : (plain c).toNat < 0x80 := by
  rcases plain_cases c with ⟨k, hk, -, hplain⟩ | ⟨-, -, -, hplain⟩ | ⟨hvalue, hblank, hplain⟩
  · rw [hplain]
    exact (digitChar_facts k hk).2.2.2.2
  · rw [hplain]
    decide
  · rw [hplain]
    rcases h with hascii | hdigit | hspace
    · exact hascii
    · rw [isDigit, hvalue] at hdigit
      cases hdigit
    · by_contra hbeyond
      exact hblank ⟨hspace, by omega⟩

/-! ## With the Kelvin sign -/

/-- The character in ASCII that readers of values take for the same, if there is one. -/
def asciiForm (c : Char) : Char := if c = kelvin then 'k' else plain c

theorem not_hasPlain_kelvin : ¬HasPlain kelvin := by
  unfold HasPlain
  decide

theorem asciiForm_of_ne (h : c ≠ kelvin) : asciiForm c = plain c := if_neg h

theorem asciiForm_ascii (h : HasPlain c ∨ c = kelvin) : (asciiForm c).toNat < 0x80 := by
  by_cases hkelvin : c = kelvin
  · rw [hkelvin]
    decide
  · rw [asciiForm_of_ne hkelvin]
    exact (h.resolve_right hkelvin).ascii

theorem isBlank_asciiForm (c : Char) : isBlank (asciiForm c) = isBlank c := by
  by_cases hkelvin : c = kelvin
  · rw [hkelvin]
    decide
  · rw [asciiForm_of_ne hkelvin, isTranscription_plain.blank]

/-- A character of a word in any case stays the same but for its case. -/
theorem small_asciiForm (h : c.toNat < 0x80 ∨ c = kelvin) : small (asciiForm c) = small c := by
  by_cases hkelvin : c = kelvin
  · rw [hkelvin]
    decide
  · rw [asciiForm_of_ne hkelvin, plain_of_ascii (h.resolve_right hkelvin)]

theorem map_asciiForm {t : Text} (h : ∀ c ∈ t, HasPlain c) : t.map asciiForm = t.map plain := by
  refine List.map_congr_left fun c hc => asciiForm_of_ne ?_
  rintro rfl
  exact not_hasPlain_kelvin (h _ hc)

end CssValues.Text
