import CssValues.Number.Layout
import CssValues.Text.Blank
import CssValues.Text.DecimalDigit
import Mathlib.Tactic.Ring

/-!
# Digits and the numbers they stand for

The digits that are written are ASCII digits, and reading them gives the number back.
-/

namespace CssValues.Text

/-! ## Single digits -/

theorem isAsciiDigit_iff {c : Char} : isAsciiDigit c = true ↔ 48 ≤ c.toNat ∧ c.toNat ≤ 57 := by
  simp only [isAsciiDigit, Bool.and_eq_true, decide_eq_true_eq, Char.le_def, UInt32.le_iff_toNat_le]
  exact Iff.rfl

theorem digitValue?_of_isAsciiDigit {c : Char} (h : isAsciiDigit c = true) :
    digitValue? c = some (c.toNat - 48) := by
  obtain ⟨h1, h2⟩ := isAsciiDigit_iff.mp h
  simp [digitValue?, decimalZeros, h1, h2]

theorem isDigit_of_isAsciiDigit {c : Char} (h : isAsciiDigit c = true) : isDigit c = true := by
  simp [isDigit, digitValue?_of_isAsciiDigit h]

/-- What holds of the ten digits of every script holds of every digit. -/
theorem forall_isDigit {p : Char → Prop}
    (h : ∀ first ∈ decimalZeros, ∀ k < 10, p (Char.ofNat (first + k))) {c : Char}
    (hc : isDigit c = true) : p c := by
  simp only [isDigit, digitValue?, Option.isSome_map, List.find?_isSome, Bool.and_eq_true,
    decide_eq_true_eq] at hc
  obtain ⟨first, hmem, hle, hlt⟩ := hc
  have := h first hmem (c.toNat - first) (by omega)
  rwa [Nat.add_sub_cancel' hle, Char.ofNat_toNat] at this

/-- A digit that is not ASCII is beyond ASCII. -/
theorem isAsciiDigit_or_of_isDigit {c : Char} (hc : isDigit c = true) :
    isAsciiDigit c = true ∨ 0x7F < c.toNat := by
  refine forall_isDigit (p := fun c => isAsciiDigit c = true ∨ 0x7F < c.toNat) ?_ hc
  decide

theorem isBlank_of_isDigit {c : Char} (hc : isDigit c = true) : isBlank c = false := by
  refine forall_isDigit (p := fun c => isBlank c = false) ?_ hc
  decide +kernel

theorem isDigit_of_isBlank {c : Char} (hc : isBlank c = true) : isDigit c = false := by
  rw [← Bool.not_eq_true]
  intro hdigit
  rw [isBlank_of_isDigit hdigit] at hc
  cases hc

/-! ## Rows of digits -/

theorem foldl_digits (t : Text) (n : Nat) :
    t.foldl (fun n c => 10 * n + (digitValue? c).getD 0) n = n * 10 ^ t.length + ofDigits t := by
  induction t generalizing n with
  | nil => simp [ofDigits]
  | cons c t ih =>
    simp only [ofDigits, List.foldl_cons, List.length_cons]
    rw [ih, ih (10 * 0 + _)]
    ring

theorem ofDigits_append (s t : Text) :
    ofDigits (s ++ t) = ofDigits s * 10 ^ t.length + ofDigits t := by
  rw [ofDigits, List.foldl_append, foldl_digits]
  rfl

theorem ofDigits_zeros (n : Nat) : ofDigits (List.replicate n '0') = 0 := by
  induction n with
  | zero => rfl
  | succ n ih =>
    rw [List.replicate_succ', ofDigits_append, ih]
    rfl

theorem ofDigits_eq_ofDigitChars {t : Text} (h : ∀ c ∈ t, isAsciiDigit c = true) (n : Nat) :
    t.foldl (fun n c => 10 * n + (digitValue? c).getD 0) n = Nat.ofDigitChars 10 t n := by
  induction t generalizing n with
  | nil => rfl
  | cons c t ih =>
    rw [List.foldl_cons, Nat.ofDigitChars_cons, ih fun d hd => h d (List.mem_cons_of_mem _ hd),
      digitValue?_of_isAsciiDigit (h c List.mem_cons_self)]
    rfl

/-! ## Digits of a number -/

theorem isAsciiDigit_of_mem_ofNat {n : Nat} {c : Char} (h : c ∈ ofNat n) :
    isAsciiDigit c = true := by
  have := Nat.isDigit_of_mem_toDigits (by omega) (by omega) h
  simpa [Char.isDigit, isAsciiDigit, Char.le_def] using this

theorem ofNat_ne_nil (n : Nat) : ofNat n ≠ [] := Nat.toDigits_ne_nil

/-- Reading the digits of a number gives the number. -/
theorem ofDigits_ofNat (n : Nat) : ofDigits (ofNat n) = n := by
  rw [ofDigits, ofDigits_eq_ofDigitChars fun _ => isAsciiDigit_of_mem_ofNat]
  exact Nat.ofDigitChars_ten_toDigits

end CssValues.Text
