import CssValues.Proofs.Number.Nearest
import CssValues.Proofs.Number.Order
import Mathlib.Data.Nat.Prime.Basic
import Mathlib.Tactic.NormNum

/-!
# Rounding and order

Rounding is monotone (`Binary64.IsRounding.mono`), so what lies between two doubles before it is
rounded lies between them afterwards (`Binary64.IsRounding.between`). Sums, differences, products
and quotients of doubles are the roundings of the exact ones. Small multiples of powers of two are
doubles (`Binary64.isExact_div_two_pow`).
-/

namespace CssValues

namespace Binary64

open Number (IsAt)

/-! ## Rounding -/

/-- `x` is the rounding of `z`, a zero of either sign if `z` is zero. -/
def IsRounding (z : Rat) (x : Binary64) : Prop :=
  ∃ negative, x = ofMagnitude negative |z| ∧ (if negative then z ≤ 0 else 0 ≤ z)

/-- A rational number that is a double. -/
def IsExact (q : Rat) : Prop := ∃ x, (Number.double x).IsAt q

variable {x y : Binary64} {p q v w z : Rat}

theorem isAt_double : (Number.double x).IsAt v
    ↔ ∃ negative m e h, x = .finite negative m e h ∧ v = exact negative m e := by
  constructor
  · intro h
    cases x with
    | finite negative m e hfits => exact ⟨negative, m, e, hfits, rfl, by cases h; rfl⟩
    | infinite negative => cases negative <;> cases h
    | nan => cases h
  · rintro ⟨negative, m, e, h, rfl, rfl⟩
    rfl

theorem exists_isAt_iff : (∃ q, (Number.double x).IsAt q) ↔ x.isFinite = true := by
  constructor
  · rintro ⟨q, hq⟩
    obtain ⟨_, _, _, _, rfl, -⟩ := isAt_double.mp hq
    rfl
  · exact Number.exists_isAt

theorem isZero_of_ne_zero (hv : (Number.double x).IsAt v) (h : v ≠ 0) : x.isZero = false := by
  obtain ⟨negative, m, e, hfits, rfl, rfl⟩ := isAt_double.mp hv
  refine decide_eq_false ?_
  rintro rfl
  exact h (by cases negative <;> simp [exact])

theorem abs_exact (negative : Bool) (m : Nat) (e : Int) : |exact negative m e| = exact false m e := by
  have hnonneg := exact_nonneg m e
  cases negative with
  | false => exact abs_of_nonneg hnonneg
  | true => rw [exact_eq, if_pos rfl, abs_neg, abs_of_nonneg hnonneg]

/-- A double is the rounding of its own value. -/
theorem isRounding_self (h : (Number.double x).IsAt v) : IsRounding v x := by
  obtain ⟨negative, m, e, hfits, rfl, rfl⟩ := isAt_double.mp h
  refine ⟨negative, ?_, ?_⟩
  · rw [abs_exact, ofMagnitude_exact]
  · cases negative with
    | false => exact exact_nonneg m e
    | true =>
      rw [if_pos rfl, exact_eq, if_pos rfl]
      exact neg_nonpos.mpr (exact_nonneg m e)

theorem isRounding_ofRat (z : Rat) : IsRounding z (ofRat z) := by
  unfold ofRat
  split
  · next h => exact ⟨true, by rw [abs_of_neg h], h.le⟩
  · next h => exact ⟨false, by rw [abs_of_nonneg (not_lt.mp h)], not_lt.mp h⟩

theorem neg_pack (negative : Bool) (m : Nat) (e : Int) :
    (pack negative m e).neg = pack (!negative) m e := by
  unfold pack
  split <;> rfl

theorem neg_ofMagnitude (negative : Bool) (q : Rat) :
    (ofMagnitude negative q).neg = ofMagnitude (!negative) q := by
  unfold ofMagnitude
  split
  · rfl
  · dsimp only
    split
    · exact neg_pack negative _ _
    · exact neg_pack negative _ _

theorem IsRounding.neg (h : IsRounding z x) : IsRounding (-z) x.neg := by
  obtain ⟨negative, rfl, hsign⟩ := h
  refine ⟨!negative, by rw [abs_neg, neg_ofMagnitude], ?_⟩
  cases negative with
  | false => exact neg_nonpos.mpr hsign
  | true => exact neg_nonneg.mpr hsign

/-- A value is at most halfway to what it is not rounded to. -/
theorem midpoint_le {m n q : Rat} (hlt : n < m) (h : |m - q| ≤ |n - q|) : (m + n) / 2 ≤ q := by
  by_contra hless
  have hfar : |m - q| = m - q := abs_of_nonneg (by linarith)
  have hnear : |n - q| < m - q := abs_lt.mpr ⟨by linarith, by linarith⟩
  linarith

theorem le_midpoint {m n q : Rat} (hlt : m < n) (h : |m - q| ≤ |n - q|) : q ≤ (m + n) / 2 := by
  by_contra hless
  have hfar : |m - q| = q - m := by
    rw [abs_sub_comm]
    exact abs_of_nonneg (by linarith)
  have hnear : |n - q| < q - m := abs_lt.mpr ⟨by linarith, by linarith⟩
  linarith

theorem ofMagnitude_mono {m n : Nat} {e f : Int} {hm : FitsBinary64 m e} {hn : FitsBinary64 n f}
    (hp : ofMagnitude false p = .finite false m e hm)
    (hq : ofMagnitude false q = .finite false n f hn) (h0 : 0 ≤ p) (h : p ≤ q) :
    exact false m e ≤ exact false n f := by
  obtain ⟨-, m', e', hm', heq, hnearP⟩ := (isNearest_iff h0).mpr ⟨hp, rfl⟩
  obtain ⟨-, n', f', hn', heq', hnearQ⟩ := (isNearest_iff (h0.trans h)).mpr ⟨hq, rfl⟩
  cases heq
  cases heq'
  by_contra hless
  have hlt : exact false n f < exact false m e := not_le.mp hless
  have hlow := midpoint_le hlt ((hnearP n f hn).elim le_of_lt fun h => h.1.le)
  have hhigh := le_midpoint hlt ((hnearQ m e hm).elim le_of_lt fun h => h.1.le)
  -- both are halfway between the two doubles, so they are rounded alike
  obtain rfl : p = q := le_antisymm h (by linarith)
  rw [hp] at hq
  cases hq
  exact hlt.false

/-- What a rounding comes from: the rounding of the magnitude, with a sign. -/
theorem IsRounding.exists_magnitude (h : IsRounding z x) (hv : (Number.double x).IsAt v) :
    ∃ negative m e, ∃ hfits : FitsBinary64 m e, ofMagnitude false |z| = .finite false m e hfits
      ∧ v = exact negative m e ∧ (if negative then z ≤ 0 else 0 ≤ z) := by
  obtain ⟨negative, rfl, hsign⟩ := h
  obtain ⟨sign, m, e, hfits, heq, rfl⟩ := isAt_double.mp hv
  have habs := abs_ofMagnitude negative |z|
  rcases ofMagnitude_cases negative |z| with ⟨m', e', h', heq'⟩ | heq'
  · cases heq.symm.trans heq'
    rw [heq] at habs
    exact ⟨negative, m, e, hfits, habs.symm, rfl, hsign⟩
  · rw [heq] at heq'
    cases heq'

/-- **Monotone rounding.** -/
theorem IsRounding.mono (hx : IsRounding p x) (hy : IsRounding q y) (hv : (Number.double x).IsAt v)
    (hw : (Number.double y).IsAt w) (h : p ≤ q) : v ≤ w := by
  obtain ⟨s, m, e, hm, hp, rfl, hs⟩ := hx.exists_magnitude hv
  obtain ⟨t, n, f, hn, hq, rfl, ht⟩ := hy.exists_magnitude hw
  have hm0 := exact_nonneg m e
  have hn0 := exact_nonneg n f
  rw [exact_eq s, exact_eq t]
  cases s with
  | false =>
    have hp0 : 0 ≤ p := hs
    have hq0 : 0 ≤ q := hp0.trans h
    have hmono := ofMagnitude_mono hp hq (abs_nonneg p)
      (by rwa [abs_of_nonneg hp0, abs_of_nonneg hq0])
    cases t with
    | false => exact hmono
    | true =>
      -- `q` is zero, and so is its rounding
      obtain rfl : q = 0 := le_antisymm ht hq0
      rw [abs_zero, ofMagnitude_zero] at hq
      cases hq
      rw [exact_zero] at hmono ⊢
      simpa using hmono
  | true =>
    have hp0 : p ≤ 0 := hs
    cases t with
    | false =>
      simp only [if_pos, Bool.false_eq_true, if_false]
      linarith
    | true =>
      have hq0 : q ≤ 0 := ht
      have hmono := ofMagnitude_mono hq hp (abs_nonneg q)
        (by rw [abs_of_nonpos hp0, abs_of_nonpos hq0]; linarith)
      exact neg_le_neg hmono

/-! ## Bounds -/

theorem IsExact.lt_overflow (h : IsExact q) : |q| < overflow := by
  obtain ⟨x, hx⟩ := h
  obtain ⟨negative, m, e, hfits, rfl, rfl⟩ := isAt_double.mp hx
  rw [abs_exact]
  have hm : (m : Rat) ≤ 9007199254740992 - 1 := by
    have := hfits.1
    rw [le_sub_iff_add_le]
    exact_mod_cast this
  calc exact false m e = m * 2 ^ e := rfl
    _ ≤ (9007199254740992 - 1) * 2 ^ (971 : Int) := by
      refine mul_le_mul hm (zpow_le_zpow_right₀ (by norm_num) hfits.2.2.1) (by positivity) ?_
      norm_num
    _ < overflow := by
      rw [overflow_eq]
      exact mul_lt_mul_of_pos_right (by norm_num) (by positivity)

/-- Below the overflow a rounding is finite. -/
theorem IsRounding.exists_isAt (h : IsRounding z x) (hz : |z| < overflow) :
    ∃ v, (Number.double x).IsAt v := by
  obtain ⟨negative, rfl, -⟩ := h
  exact Number.exists_isAt (isNearest_ofMagnitude negative (abs_nonneg z) hz).isFinite

/-- What lies between two doubles is rounded to one between them. -/
theorem IsRounding.between (h : IsRounding z x) (hp : IsExact p) (hq : IsExact q) (hpz : p ≤ z)
    (hzq : z ≤ q) : ∃ v, (Number.double x).IsAt v ∧ p ≤ v ∧ v ≤ q := by
  have hz : |z| < overflow :=
    (abs_le_max_abs_abs hpz hzq).trans_lt (max_lt hp.lt_overflow hq.lt_overflow)
  obtain ⟨v, hv⟩ := h.exists_isAt hz
  obtain ⟨a, ha⟩ := hp
  obtain ⟨b, hb⟩ := hq
  exact ⟨v, hv, (isRounding_self ha).mono h ha hv hpz, h.mono (isRounding_self hb) hv hb hzq⟩

theorem IsExact.isAt_ofRat (h : IsExact q) : (Number.double (ofRat q)).IsAt q := by
  obtain ⟨v, hv, hlow, hhigh⟩ := (isRounding_ofRat q).between h h le_rfl le_rfl
  obtain rfl : q = v := le_antisymm hlow hhigh
  exact hv

/-- An integer that is a double has that one. -/
theorem IsExact.toDouble_int {n : Int} (h : IsExact n) :
    (Number.int n).toDouble = .ok (ofInt n) :=
  Number.toDouble_int (exists_isAt_iff.mp ⟨_, h.isAt_ofRat⟩)

theorem isExact_iff : IsExact q ↔ (ofRat q).toRat? = some q := by
  constructor
  · intro h
    obtain ⟨negative, m, e, hfits, heq, hvalue⟩ := isAt_double.mp h.isAt_ofRat
    rw [heq, toRat?, hvalue]
  · intro h
    refine ⟨ofRat q, ?_⟩
    cases hx : ofRat q with
    | finite negative m e hfits =>
      rw [hx] at h
      cases h
      rfl
    | infinite negative =>
      rw [hx] at h
      cases h
    | nan =>
      rw [hx] at h
      cases h

instance (q : Rat) : Decidable (IsExact q) := decidable_of_iff _ isExact_iff.symm

/-! ## Arithmetic -/

theorem isAt_zero_double (negative : Bool) : (Number.double (zero negative)).IsAt 0 :=
  isAt_double.mpr ⟨negative, 0, -1074, by decide, rfl, by cases negative <;> simp [exact]⟩

theorem isAt_neg (h : (Number.double x).IsAt v) : (Number.double x.neg).IsAt (-v) := by
  obtain ⟨negative, m, e, hfits, rfl, rfl⟩ := isAt_double.mp h
  refine isAt_double.mpr ⟨!negative, m, e, hfits, rfl, ?_⟩
  cases negative <;> simp [exact]

theorem isRounding_add (hx : (Number.double x).IsAt v) (hy : (Number.double y).IsAt w) :
    IsRounding (v + w) (x.add y) := by
  obtain ⟨a, m, e, hm, rfl, rfl⟩ := isAt_double.mp hx
  obtain ⟨b, n, f, hn, rfl, rfl⟩ := isAt_double.mp hy
  unfold add
  dsimp only
  split
  · next hsum =>
    rw [hsum]
    exact isRounding_self (isAt_zero_double _)
  · exact isRounding_ofRat _

theorem isRounding_sub (hx : (Number.double x).IsAt v) (hy : (Number.double y).IsAt w) :
    IsRounding (v - w) (x.sub y) := by
  rw [sub_eq_add_neg]
  exact isRounding_add hx (isAt_neg hy)

theorem isRounding_mul (hx : (Number.double x).IsAt v) (hy : (Number.double y).IsAt w) :
    IsRounding (v * w) (x.mul y) := by
  obtain ⟨a, m, e, hm, rfl, rfl⟩ := isAt_double.mp hx
  obtain ⟨b, n, f, hn, rfl, rfl⟩ := isAt_double.mp hy
  refine ⟨a != b, by rw [abs_mul, abs_exact, abs_exact]; rfl, ?_⟩
  have hsign := mul_nonneg (exact_nonneg m e) (exact_nonneg n f)
  cases a <;> cases b <;> simp [exact_eq true, hsign]

theorem isRounding_div (hx : (Number.double x).IsAt v) (hy : (Number.double y).IsAt w) :
    IsRounding (v / w) (x.div y) := by
  obtain ⟨a, m, e, hm, rfl, rfl⟩ := isAt_double.mp hx
  obtain ⟨b, n, f, hn, rfl, rfl⟩ := isAt_double.mp hy
  refine ⟨a != b, by rw [abs_div, abs_exact, abs_exact]; rfl, ?_⟩
  have hsign := div_nonneg (exact_nonneg m e) (exact_nonneg n f)
  cases a <;> cases b <;> simp [exact_eq true, neg_div, div_neg, hsign]

/-! ## Constants -/

/-- A small whole number of halves, quarters, eighths and so on is a double. -/
theorem isExact_div_two_pow {n k : Nat} (hn : n < 2 ^ 53) (hk : k ≤ 1022) :
    IsExact ((n : Rat) / 2 ^ k) := by
  rcases Nat.eq_zero_or_pos n with rfl | hpos
  · exact ⟨zero false, by simpa using isAt_zero_double false⟩
  · -- the significand is moved up until it fills its 53 bits
    have hlog : n.log2 ≤ 52 := Nat.le_of_lt_succ ((Nat.log2_lt hpos.ne').mpr hn)
    obtain ⟨shift, hshift⟩ : ∃ shift, n.log2 + shift = 52 := ⟨_, Nat.add_sub_cancel' hlog⟩
    have hlow : 2 ^ 52 ≤ n * 2 ^ shift := calc
      2 ^ 52 = 2 ^ n.log2 * 2 ^ shift := by rw [← pow_add, hshift]
      _ ≤ n * 2 ^ shift := Nat.mul_le_mul_right _ (Nat.log2_self_le hpos.ne')
    have hhigh : n * 2 ^ shift < 2 ^ 53 := calc
      n * 2 ^ shift < 2 ^ (n.log2 + 1) * 2 ^ shift :=
        Nat.mul_lt_mul_of_pos_right Nat.lt_log2_self (by positivity)
      _ = 2 ^ 53 := by rw [← pow_add]; congr 1; omega
    have hfits : FitsBinary64 (n * 2 ^ shift) (-((k + shift : Nat) : Int)) :=
      ⟨hhigh, by omega, by omega, .inl hlow⟩
    refine ⟨.finite false _ _ hfits, isAt_double.mpr ⟨_, _, _, hfits, rfl, ?_⟩⟩
    rw [exact, if_neg Bool.false_ne_true, zpow_neg, zpow_natCast, pow_add, Nat.cast_mul,
      Nat.cast_pow, Nat.cast_ofNat]
    field_simp

theorem isExact_natCast_div {n d : Nat} (hn : n < 2 ^ 53) (hd : d ∣ 2 ^ 64) :
    IsExact ((n : Rat) / d) := by
  obtain ⟨k, hk, rfl⟩ := (Nat.dvd_prime_pow Nat.prime_two).mp hd
  rw [Nat.cast_pow, Nat.cast_ofNat]
  exact isExact_div_two_pow hn (hk.trans (by norm_num))

@[simp] theorem isExact_zero : IsExact 0 := ⟨zero false, isAt_zero_double false⟩

@[simp] theorem isExact_one : IsExact 1 := by
  simpa using isExact_div_two_pow (n := 1) (k := 0) (by norm_num) (by norm_num)

@[simp] theorem isExact_ofNat {n : Nat} [n.AtLeastTwo] (h : n < 2 ^ 53) :
    IsExact (ofNat(n) : Rat) := by
  have hexact := isExact_div_two_pow (k := 0) h (by norm_num)
  rwa [pow_zero, div_one] at hexact

@[simp] theorem isExact_ofNat_div {n d : Nat} [n.AtLeastTwo] [d.AtLeastTwo] (hn : n < 2 ^ 53)
    (hd : d ∣ 2 ^ 64) : IsExact (ofNat(n) / ofNat(d)) := isExact_natCast_div hn hd

@[simp] theorem isExact_inv_ofNat {d : Nat} [d.AtLeastTwo] (hd : d ∣ 2 ^ 64) :
    IsExact (ofNat(d))⁻¹ := by
  have hexact := isExact_natCast_div (n := 1) (by norm_num) hd
  rwa [Nat.cast_one, one_div] at hexact

@[simp] theorem isExact_neg : IsExact (-q) ↔ IsExact q := by
  have hneg {q : Rat} (h : IsExact q) : IsExact (-q) := by
    obtain ⟨x, hx⟩ := h
    exact ⟨x.neg, isAt_neg hx⟩
  exact ⟨fun h => neg_neg q ▸ hneg h, hneg⟩

end Binary64

end CssValues
