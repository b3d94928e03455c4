import CssValues.Proofs.Number.Order

/-!
# Numbers in the form of style values

What style values write for a finite double is positional, with no exponent however large or small the
double is, and a number literal from end to end; it reads as an equal double (`Number.plain_positional`).
An integer near a double is written with its own digits.
-/

namespace CssValues

/-! ## Digits of a natural number -/

/-- Only the digits of zero start with a zero. -/
theorem Text.head?_ofNat {n : Nat} (hn : n ≠ 0) : (ofNat n).head? ≠ some '0' := by
  induction n using Nat.strongRecOn with
  | ind n ih =>
    unfold ofNat
    rw [Nat.toDigits_eq_if (by omega)]
    split
    · simpa using hn
    · next hge =>
      rw [List.head?_append_of_ne_nil _ Nat.toDigits_ne_nil]
      exact ih (n / 10) (by omega) (by omega)

/-! ## The two zeros -/

namespace Binary64

variable {x : Binary64}

theorem isFinite_unsignZero (h : x.isFinite = true) : x.unsignZero.isFinite = true := by
  unfold unsignZero
  split
  · rfl
  · exact h

/-- The two zeros are equal as numbers. -/
theorem equals_unsignZero (h : x.isFinite = true) :
    (Number.double x.unsignZero).equals (.double x) = true := by
  cases x with
  | finite negative m e hfits =>
    unfold unsignZero
    split
    · next hzero =>
      obtain rfl : m = 0 := by simpa [isZero] using hzero
      simp [Number.equals, Number.position?, position?, Position.same, zero, exact]
    · simp [Number.equals, Number.position?, position?, Position.same]
  | infinite negative => cases h
  | nan => cases h

end Binary64

/-! ## Written and read back -/

/-- A numeral is taken off a text whole. -/
theorem Numeral.splitNumber?_text (n : Numeral) (negative : Bool) :
    splitNumber? (signed negative n.text) = some (signed negative n.text, []) := by
  have hsplit := n.toLiteral.splitNumber?_text (Sign.ofNegative negative) endsNumeral_nil
  rwa [List.append_nil, n.text_toLiteral, ← signed_eq] at hsplit

namespace Number

/-- An integer is written with its own digits if there is a double near it. -/
theorem plain_int {i : Int} {y : Binary64} (h : (int i).toDouble = .ok y) :
    (int i).plain = .ok (signed (decide (i < 0)) (Text.ofNat i.natAbs)) := by
  have hplain : (int i).plain = .ok (Text.ofInt i) := by
    show ((int i).toDouble >>= fun _ => Except.ok (Text.ofInt i)) = _
    rw [h]
    rfl
  rw [hplain, Binary64.ofInt_eq_signed]
  rfl

/-- **Style values.** A finite double is written as digits, perhaps with a point and more digits, perhaps
behind a minus sign. All of it is a number literal, and it reads as a double that is equal to the one
written. An integer that there is a double near is written as its digits, all of them. -/
theorem plain_positional :
    (∀ x : Binary64, x.isFinite = true → ∃ (n : Numeral) (negative : Bool) (y : Binary64),
      (double x).plain = .ok (signed negative n.text)
      ∧ splitNumber? (signed negative n.text) = some (signed negative n.text, [])
      ∧ Binary64.readFinite? (signed negative n.text) = some y
      ∧ (double y).equals (double x) = true)
    ∧ ∀ (i : Int) (y : Binary64), (int i).toDouble = .ok y → ∃ digits : Text,
      (int i).plain = .ok (signed (decide (i < 0)) digits)
      ∧ digits ≠ []
      ∧ (∀ c ∈ digits, Text.isAsciiDigit c = true)
      ∧ Text.ofDigits digits = i.natAbs
      ∧ (digits.head? = some '0' → digits = ['0']) := by
  constructor
  · intro x hx
    obtain ⟨n, negative, htext, hvalue⟩ := Binary64.exists_numeral_plain hx
    have hread := n.readFinite?_text hvalue (Binary64.isFinite_unsignZero hx)
    exact ⟨n, negative, x.unsignZero, congrArg Except.ok htext, n.splitNumber?_text negative, hread,
      Binary64.equals_unsignZero hx⟩
  · intro i y hy
    refine ⟨Text.ofNat i.natAbs, plain_int hy, Text.ofNat_ne_nil _,
      fun c => Text.isAsciiDigit_of_mem_ofNat, Text.ofDigits_ofNat _, fun hhead => ?_⟩
    have hzero : i.natAbs = 0 := by
      by_contra hne
      exact Text.head?_ofNat hne hhead
    rw [hzero]
    rfl

/-- The negative zero, the largest negative double below zero, and an integer with more digits than a
double tells apart. -/
theorem plain_positional_extremes :
    let zero := Binary64.zero true
    let tiny := Binary64.finite true 1 (-1074) (by decide)
    let large : Int := -(10 ^ 20 + 1)
    (∃ (n : Numeral) (negative : Bool) (y : Binary64),
      (double zero).plain = .ok (signed negative n.text)
      ∧ Binary64.readFinite? (signed negative n.text) = some y ∧ (double y).equals (double zero) = true)
    ∧ (∃ (n : Numeral) (negative : Bool) (y : Binary64),
      (double tiny).plain = .ok (signed negative n.text)
      ∧ Binary64.readFinite? (signed negative n.text) = some y ∧ (double y).equals (double tiny) = true)
    ∧ ∃ digits : Text, (int large).plain = .ok ('-' :: digits)
      ∧ Text.ofDigits digits = 10 ^ 20 + 1 := by
  intro zero tiny large
  obtain ⟨hdouble, hint⟩ := plain_positional
  obtain ⟨n, a, y, hzero, -, hzeroRead⟩ := hdouble zero rfl
  obtain ⟨m, b, z, htiny, -, htinyRead⟩ := hdouble tiny rfl
  obtain ⟨digits, hlarge, -, -, hvalue, -⟩ := hint large _ (toDouble_int (by decide +kernel))
  exact ⟨⟨n, a, y, hzero, hzeroRead⟩, ⟨m, b, z, htiny, htinyRead⟩, digits, hlarge, hvalue⟩

end Number

end CssValues
