import CssValues.Proofs.Number.Monotone
import CssValues.Unit

/-!
# Lengths in pixels

A double with a unit has a double as its size in pixels, in every context: no factor is beyond the
doubles and no divisor is zero. Whether the size is finite does not depend on signs.
-/

namespace CssValues

/-! ## Arithmetic with a double on the left -/

namespace Number

variable {n : Number}

theorem exists_toDouble (h : n.hasFiniteDouble = true) :
    ∃ d : Binary64, n.toDouble = .ok d ∧ d.isFinite = true := by
  unfold hasFiniteDouble at h
  split at h
  · next d hd => exact ⟨d, hd, h⟩
  · cases h

theorem isFinite_double (x : Binary64) : (double x).isFinite = .ok x.isFinite := rfl

theorem double_mul {d : Binary64} (h : n.toDouble = .ok d) (x : Binary64) :
    (double x).mul n = .ok (.double (x.mul d)) :=
  combine_of_not_int (fun h => not_isInt_double x h.1) rfl h

theorem double_div {d : Binary64} (h : n.toDouble = .ok d) (hd : d.isZero = false)
    (x : Binary64) : (double x).div n = .ok (.double (x.div d)) :=
  div_of_not_int (fun h => not_isInt_double x h.1) rfl h hd

theorem double_div_int {k : Int} (h : Binary64.IsExact k) (hk : k ≠ 0) (x : Binary64) :
    (double x).div (int k) = .ok (.double (x.div (Binary64.ofInt k))) :=
  double_div h.toDouble_int
    (Binary64.isZero_of_ne_zero h.isAt_ofRat (Int.cast_ne_zero.mpr hk)) x

theorem min_cases (a b : Number) : a.min b = a ∨ a.min b = b := by
  unfold Number.min
  split
  · exact .inr rfl
  · exact .inl rfl

theorem max_cases (a b : Number) : a.max b = a ∨ a.max b = b := by
  unfold Number.max
  split
  · exact .inr rfl
  · exact .inl rfl

end Number

/-! ## Factors and divisors -/

namespace LengthUnit

/-- The factor of every unit is a number that a context may have. -/
theorem isDimension_factor (u : LengthUnit) (c : Context) : (u.factor c).isDimension = true := by
  have hw := c.viewportWidth.isDimension
  have hh := c.viewportHeight.isDimension
  cases u with
  | px => exact (by decide +kernel : (1 : Number).isDimension = true)
  | pt => exact (by decide +kernel : pointSize.isDimension = true)
  | pc => exact (by decide +kernel : (16 : Number).isDimension = true)
  | inch => exact (by decide +kernel : (96 : Number).isDimension = true)
  | cm => exact (by decide +kernel : centimetreSize.isDimension = true)
  | mm => exact (by decide +kernel : millimetreSize.isDimension = true)
  | em | rem | ch | ex => exact c.fontSize.isDimension
  | vw => exact hw
  | vh => exact hh
  | vmin =>
    show (Number.min c.viewportWidth.value c.viewportHeight.value).isDimension = true
    rcases Number.min_cases c.viewportWidth.value c.viewportHeight.value with h | h
    · rw [h]; exact hw
    · rw [h]; exact hh
  | vmax =>
    show (Number.max c.viewportWidth.value c.viewportHeight.value).isDimension = true
    rcases Number.max_cases c.viewportWidth.value c.viewportHeight.value with h | h
    · rw [h]; exact hw
    · rw [h]; exact hh

/-- No unit has a factor beyond the doubles. -/
theorem factor_hasFiniteDouble (u : LengthUnit) (c : Context) :
    (u.factor c).hasFiniteDouble = true :=
  (Bool.and_eq_true_iff.mp (u.isDimension_factor c)).1

theorem divisor?_cases {u : LengthUnit} {n : Number} (h : u.divisor? = some n) :
    n = 2 ∨ n = 100 := by
  cases u <;> simp only [divisor?, reduceCtorEq, Option.some.injEq] at h <;> simp [← h]

/-- Every divisor is a finite double other than zero. -/
theorem divisor?_toDouble {u : LengthUnit} {n : Number} (h : u.divisor? = some n) :
    ∃ d : Binary64, n.toDouble = .ok d ∧ d.isFinite = true ∧ d.isZero = false := by
  have hint {k : Int} (hk : Binary64.IsExact k) (h0 : k ≠ 0) : ∃ d : Binary64,
      (Number.int k).toDouble = .ok d ∧ d.isFinite = true ∧ d.isZero = false :=
    ⟨_, hk.toDouble_int, Binary64.exists_isAt_iff.mp ⟨_, hk.isAt_ofRat⟩,
      Binary64.isZero_of_ne_zero hk.isAt_ofRat (Int.cast_ne_zero.mpr h0)⟩
  rcases divisor?_cases h with rfl | rfl
  · exact hint (k := 2) (by simp) (by decide)
  · exact hint (k := 100) (by simp) (by decide)

/-- What a double is multiplied by, and then divided by if there is a divisor. -/
structure Scale where
  factor : Binary64
  divisor : Option Binary64

/-- The scale of a unit in a context. -/
def Scale.apply (s : Scale) (x : Binary64) : Binary64 :=
  match s.divisor with
  | some d => (x.mul s.factor).div d
  | none => x.mul s.factor

/-- **Totality.** A unit scales every double, and to a double. -/
theorem exists_scale (u : LengthUnit) (c : Context) :
    ∃ s : Scale, (u.factor c).toDouble = .ok s.factor
      ∧ (∀ d ∈ s.divisor, ∃ n, u.divisor? = some n ∧ n.toDouble = .ok d)
      ∧ ∀ x : Binary64, u.toPixels (.double x) c = .ok (.double (s.apply x)) := by
  obtain ⟨f, hf, -⟩ := Number.exists_toDouble (u.factor_hasFiniteDouble c)
  cases hd : u.divisor? with
  | none =>
    refine ⟨⟨f, none⟩, hf, by simp, fun x => ?_⟩
    simp only [toPixels, Number.double_mul hf, hd, bind, Except.bind]
    rfl
  | some n =>
    obtain ⟨d, hn, -, hdzero⟩ := divisor?_toDouble hd
    refine ⟨⟨f, some d⟩, hf, ?_, fun x => ?_⟩
    · rintro _ ⟨⟩
      exact ⟨n, rfl, hn⟩
    · simp only [toPixels, Number.double_mul hf, hd, bind, Except.bind]
      exact Number.double_div hn hdzero _

/-- A pixel is a pixel. -/
theorem toPixels_px {x : Binary64} (h : x.isFinite = true) (c : Context) :
    px.toPixels (.double x) c = .ok (.double x) := by
  have hone : Number.toDouble 1 = .ok (.finite false 4503599627370496 (-52) (by decide)) := by
    decide +kernel
  have hmul : x.mul (.finite false 4503599627370496 (-52) (by decide)) = x := by
    cases x with
    | finite negative m e hfits =>
      have hexact : Binary64.exact false 4503599627370496 (-52) = 1 := by
        norm_num [Binary64.exact]
      show Binary64.ofMagnitude (negative != false) (Binary64.exact false m e * _) = _
      rw [hexact, mul_one, Binary64.ofMagnitude_exact _ hfits, Bool.bne_false]
    | infinite negative => cases h
    | nan => cases h
  have hproduct : (Number.double x).mul (px.factor c) = .ok (.double x) := by
    rw [show px.factor c = 1 from rfl, Number.double_mul hone, hmul]
  simp only [toPixels, hproduct, bind, Except.bind]
  rfl

end LengthUnit

end CssValues
