import CssValues.Proofs.Text.Lowercase

/-!
# Hexadecimal digits

Numbers below 256 are written with two digits in small letters. Reading them gives the number back
(`ofHexDigits_hex`), and writing what two digits in any case stand for gives these digits in small
letters (`hex_ofHexDigits`).
-/

namespace CssValues.Text

/-! ## Single digits -/

theorem isHexDigit_iff {c : Char} : isHexDigit c = true ↔ 48 ≤ c.toNat ∧ c.toNat ≤ 57
    ∨ 97 ≤ c.toNat ∧ c.toNat ≤ 102 ∨ 65 ≤ c.toNat ∧ c.toNat ≤ 70 := by
  have hrange (a b : Char) : (a ≤ c ∧ c ≤ b) ↔ a.toNat ≤ c.toNat ∧ c.toNat ≤ b.toNat := by
    simp only [Char.le_def, UInt32.le_iff_toNat_le]
    exact Iff.rfl
  have hsplit : isHexDigit c = true
      ↔ ('0' ≤ c ∧ c ≤ '9') ∨ ('a' ≤ c ∧ c ≤ 'f') ∨ ('A' ≤ c ∧ c ≤ 'F') := by
    unfold isHexDigit hexValue?
    split
    · next h => simp [h]
    split
    · next h => simp [h]
    split
    · next h => simp [h]
    · next h0 ha hA => simp [h0, ha, hA]
  rw [hsplit, hrange, hrange, hrange]
  exact Iff.rfl

/-- What holds of the hexadecimal digits in ASCII holds of all of them. -/
theorem forall_isHexDigit {p : Char → Prop}
    (h : ∀ n < 0x80, isHexDigit (Char.ofNat n) = true → p (Char.ofNat n)) {c : Char}
    (hc : isHexDigit c = true) : p c := by
  have hcode := isHexDigit_iff.mp hc
  have := h c.toNat (by omega)
  rw [Char.ofNat_toNat] at this
  exact this hc

theorem hexValue?_toLower (c : Char) : hexValue? c.toLower = hexValue? c := by
  rcases toLower_cases c with heq | ⟨-, hhigh, -⟩
  · rw [heq]
  · have hall : ∀ n < 0x80, hexValue? (Char.ofNat n).toLower = hexValue? (Char.ofNat n) := by decide
    have hc := hall c.toNat (by omega)
    rwa [Char.ofNat_toNat] at hc

theorem isHexDigit_toLower (c : Char) : isHexDigit c.toLower = isHexDigit c := by
  rw [isHexDigit, hexValue?_toLower, isHexDigit]

theorem ofHexDigits_asciiLower (t : Text) : ofHexDigits (asciiLower t) = ofHexDigits t := by
  rw [ofHexDigits, asciiLower, List.foldl_map, ofHexDigits]
  simp only [hexValue?_toLower]

/-- A digit in lower case is how its value is written. -/
theorem exists_hexValue? {c : Char} (h : isHexDigit c = true) :
    ∃ k < 16, hexValue? c = some k ∧ Nat.digitChar k = c.toLower := by
  refine forall_isHexDigit (p := fun c => ∃ k < 16, hexValue? c = some k
    ∧ Nat.digitChar k = c.toLower) ?_ h
  decide

theorem hexValue?_digitChar : ∀ k < 16, hexValue? (Nat.digitChar k) = some k := by decide

/-! ## Two digits -/

theorem ofHexDigits_pair {a b : Char} {i j : Nat} (ha : hexValue? a = some i)
    (hb : hexValue? b = some j) : ofHexDigits [a, b] = 16 * i + j := by
  simp [ofHexDigits, ha, hb]

theorem hex_eq_pair {n : Nat} (h : n < 256) :
    hex 2 n = [Nat.digitChar (n / 16), Nat.digitChar (n % 16)] := by
  unfold hex
  by_cases hsmall : n < 16
  · rw [Nat.toDigits_of_lt_base hsmall, Nat.div_eq_of_lt hsmall, Nat.mod_eq_of_lt hsmall]
    rfl
  · rw [Nat.toDigits_of_base_le (by omega) (by omega), Nat.toDigits_of_lt_base (by omega)]
    rfl

/-- **Round trip.** Two digits that are written read back. -/
theorem ofHexDigits_hex {n : Nat} (h : n < 256) : ofHexDigits (hex 2 n) = n := by
  rw [hex_eq_pair h, ofHexDigits_pair (hexValue?_digitChar _ (by omega))
    (hexValue?_digitChar _ (by omega))]
  omega

/-- **Canonical form.** What two digits stand for is written with these digits in small letters. -/
theorem hex_ofHexDigits {a b : Char} (ha : isHexDigit a = true) (hb : isHexDigit b = true) :
    hex 2 (ofHexDigits [a, b]) = asciiLower [a, b] := by
  obtain ⟨i, hi, hivalue, hichar⟩ := exists_hexValue? ha
  obtain ⟨j, hj, hjvalue, hjchar⟩ := exists_hexValue? hb
  rw [ofHexDigits_pair hivalue hjvalue, hex_eq_pair (by omega),
    show (16 * i + j) / 16 = i by omega, show (16 * i + j) % 16 = j by omega, hichar, hjchar]
  rfl

theorem ofHexDigits_lt {a b : Char} (ha : isHexDigit a = true) (hb : isHexDigit b = true) :
    ofHexDigits [a, b] < 256 := by
  obtain ⟨i, hi, hivalue, -⟩ := exists_hexValue? ha
  obtain ⟨j, hj, hjvalue, -⟩ := exists_hexValue? hb
  rw [ofHexDigits_pair hivalue hjvalue]
  omega

end CssValues.Text
