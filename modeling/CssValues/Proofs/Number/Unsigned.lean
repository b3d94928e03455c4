import CssValues.Proofs.Number.Layout

/-!
# Numbers without a sign

A number that is not negative is written as a numeral without a sign, which reads as the number
itself (`Binary64.exists_numeral_unsigned`).
-/

namespace CssValues

namespace Binary64

theorem isNegative_ofMagnitude (negative : Bool) (q : Rat) :
    (ofMagnitude negative q).isNegative = negative := by
  rcases ofMagnitude_cases negative q with ⟨m, e, h, heq⟩ | heq
  · rw [heq]; rfl
  · rw [heq]; rfl

theorem unsignZero_of_unsigned {x : Binary64} (h : x.isNegative = false) : x.unsignZero = x := by
  unfold unsignZero
  split
  · next hzero =>
    cases x with
    | finite negative m e hfits =>
      obtain rfl : m = 0 := by simpa [isZero] using hzero
      obtain rfl : negative = false := h
      rw [finite_zero]
    | infinite negative => cases hzero
    | nan => cases hzero
  · rfl

/-- **Round trip.** A number that is not negative is written without a sign and reads back as
itself, also when it is zero. -/
theorem exists_numeral_unsigned {x : Binary64} (hx : x.isFinite = true)
    (hsign : x.isNegative = false) :
    ∃ n : Numeral, x.plain = n.text ∧ (n.decimal false).toDouble = x := by
  obtain ⟨n, negative, hplain, hvalue⟩ := exists_numeral_plain hx
  rw [unsignZero_of_unsigned hsign] at hvalue
  obtain rfl : negative = false := by
    rw [← hsign, ← hvalue, Decimal.toDouble_eq, isNegative_ofMagnitude]
    rfl
  exact ⟨n, hplain, hvalue⟩

end Binary64

end CssValues
