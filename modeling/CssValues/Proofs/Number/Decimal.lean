import CssValues.Number.Decimal
import CssValues.Proofs.Number.Binary64

/-!
# Decimals and doubles read back

`Decimal.toDouble` is the rounding of the exact value, whatever its size, and `Decimal.shortest`
reads back as the double it was made for.
-/

namespace CssValues.Decimal

theorem magnitude_nonneg (d : Decimal) : 0 ≤ d.magnitude := by
  unfold magnitude
  positivity

/-! ## Reading a decimal -/

/-- Ten to the 401st is beyond the doubles. -/
theorem two_pow_le_ten_pow : (2 : Rat) ^ (1024 : Int) ≤ 10 ^ (401 : Int) := by
  rw [show (1024 : Int) = ((1024 : Nat) : Int) by rfl, show (401 : Int) = ((401 : Nat) : Int) by rfl,
    zpow_natCast, zpow_natCast]
  exact_mod_cast (by decide +kernel : 2 ^ 1024 ≤ 10 ^ 401)

theorem magnitude_large {d : Decimal} (hc : d.coefficient ≠ 0) (he : 400 < d.exponent) :
    (2 : Rat) ^ (1024 : Int) ≤ d.magnitude := by
  have hcoef : (1 : Rat) ≤ d.coefficient := by exact_mod_cast Nat.pos_of_ne_zero hc
  calc (2 : Rat) ^ (1024 : Int) ≤ 10 ^ (401 : Int) := two_pow_le_ten_pow
    _ ≤ 10 ^ d.exponent := zpow_le_zpow_right₀ (by norm_num) (by omega)
    _ ≤ d.coefficient * 10 ^ d.exponent := le_mul_of_one_le_left (by positivity) hcoef

/-- A coefficient of `n` bits cannot lift a power below `10 ^ (-400 - n)` to the least double. -/
theorem magnitude_small {d : Decimal} (he : d.exponent < -400 - (d.coefficient.log2 : Int)) :
    d.magnitude < (2 : Rat) ^ (-1075 : Int) := by
  have hcoef : (d.coefficient : Rat) < 10 ^ ((d.coefficient.log2 : Int) + 1) := by
    have hbits := Nat.lt_log2_self (n := d.coefficient)
    have hpow : 2 ^ (d.coefficient.log2 + 1) ≤ 10 ^ (d.coefficient.log2 + 1) :=
      Nat.pow_le_pow_left (by omega) _
    rw [show (d.coefficient.log2 : Int) + 1 = ((d.coefficient.log2 + 1 : Nat) : Int) by
      push_cast; rfl, zpow_natCast]
    exact_mod_cast hbits.trans_le hpow
  have hexp : (0 : Rat) < 10 ^ d.exponent := by positivity
  have hgap : (10 : Rat) ^ (-400 : Int) < 2 ^ (-1075 : Int) := by
    rw [show (-400 : Int) = -((400 : Nat) : Int) by rfl,
      show (-1075 : Int) = -((1075 : Nat) : Int) by rfl, zpow_neg, zpow_neg, zpow_natCast,
      zpow_natCast]
    refine inv_strictAnti₀ (by positivity) ?_
    exact_mod_cast (by decide +kernel : 2 ^ 1075 < 10 ^ 400)
  calc d.magnitude = d.coefficient * 10 ^ d.exponent := rfl
    _ < 10 ^ ((d.coefficient.log2 : Int) + 1) * 10 ^ d.exponent :=
        mul_lt_mul_of_pos_right hcoef hexp
    _ = 10 ^ ((d.coefficient.log2 : Int) + 1 + d.exponent) := (zpow_add₀ (by norm_num) _ _).symm
    _ ≤ 10 ^ (-400 : Int) := zpow_le_zpow_right₀ (by norm_num) (by omega)
    _ < 2 ^ (-1075 : Int) := hgap

/-- **Reading.** The short ways for extreme exponents give what rounding the exact value gives. -/
theorem toDouble_eq (d : Decimal) : d.toDouble = .ofMagnitude d.negative d.magnitude := by
  unfold toDouble
  split
  · next hc => simp [magnitude, hc, Binary64.ofMagnitude_zero]
  · next hc =>
    split
    · next he => rw [Binary64.ofMagnitude_large _ (magnitude_large hc he)]
    · split
      · next he => rw [Binary64.ofMagnitude_small _ d.magnitude_nonneg (magnitude_small he)]
      · rfl

/-- Only sign and value count, not how the value is written. -/
theorem toDouble_congr {d e : Decimal} (hs : d.negative = e.negative)
    (hm : d.magnitude = e.magnitude) : d.toDouble = e.toDouble := by
  rw [toDouble_eq, toDouble_eq, hs, hm]

/-- A decimal with the exact value of a double reads as that double. -/
theorem toDouble_exact {d : Decimal} {m : Nat} {e : Int} (h : FitsBinary64 m e)
    (hd : d.magnitude = Binary64.exact false m e) :
    d.toDouble = .finite d.negative m e h := by
  rw [toDouble_eq, hd, Binary64.ofMagnitude_exact]

/-- Reading goes by the magnitude; a sign is only carried along. -/
theorem toDouble_negative {c : Nat} {p : Int} {m : Nat} {e : Int} {h : FitsBinary64 m e}
    (hd : toDouble ⟨false, c, p⟩ = .finite false m e h) (negative : Bool) :
    toDouble ⟨negative, c, p⟩ = .finite negative m e h := by
  rw [toDouble_eq] at hd ⊢
  exact Binary64.ofMagnitude_sign hd negative

/-! ## The shortest decimal -/

/-- A value `m * 2 ^ e` is a point of every decimal grid that is fine enough. -/
theorem exists_grid_point (m : Nat) {e p : Int} (hp : p ≤ 0) (he : p ≤ e) :
    ∃ n : Nat, Binary64.exact false m e / (10 : Rat) ^ p = n := by
  refine ⟨m * 2 ^ (e - p).toNat * 5 ^ (-p).toNat, ?_⟩
  have h2 : ((e - p).toNat : Int) = e - p := Int.toNat_of_nonneg (by omega)
  have h5 : ((-p).toNat : Int) = -p := Int.toNat_of_nonneg (by omega)
  have hten : (10 : Rat) ^ p = 2 ^ p * 5 ^ p := by rw [← mul_zpow]; norm_num
  rw [div_eq_iff (by positivity)]
  push_cast
  rw [← zpow_natCast, ← zpow_natCast, h2, h5, hten, zpow_sub₀ (by norm_num), zpow_neg]
  unfold Binary64.exact
  field_simp
  simp

theorem onGrid?_toDouble {x : Binary64} {q : Rat} {p : Int} {n : Nat}
    (h : onGrid? x q p = some n) : toDouble ⟨false, n, p⟩ = x := by
  unfold onGrid? at h
  dsimp only at h
  split_ifs at h with hnear hside hfar hfar
  · cases h
    exact hnear
  · cases h
    exact hfar
  · cases h
    exact hfar

/-- If the last grid of the search holds the value exactly, whatever is found reads back. -/
theorem shortestFrom_toDouble {m : Nat} {e : Int} (h : FitsBinary64 m e) (steps : Nat) (p : Int)
    (hp : p - steps ≤ -1074) :
    (shortestFrom (.finite false m e h) (Binary64.exact false m e) p steps).toDouble
      = .finite false m e h := by
  induction steps generalizing p with
  | zero =>
    -- the last grid has the value itself as a point
    have he := h.2.1
    obtain ⟨n, hn⟩ := exists_grid_point m (e := e) (p := p) (by omega) (by omega)
    rw [shortestFrom, hn, nearestEven_natCast, Int.toNat_natCast]
    refine toDouble_exact h ?_
    rw [magnitude, ← hn]
    exact div_mul_cancel₀ _ (by positivity)
  | succ steps ih =>
    unfold shortestFrom
    split
    · next n hn => exact onGrid?_toDouble hn
    · exact ih (p - 1) (by push_cast at hp; omega)

/-- **Writing.** The shortest decimal of a double reads back as that double. -/
theorem shortest_toDouble {m : Nat} {e : Int} (h : FitsBinary64 m e) :
    (shortest (.finite false m e h) (Binary64.exact false m e)).toDouble = .finite false m e h :=
  shortestFrom_toDouble h _ _ (by omega)

theorem shortest_negative (x : Binary64) (q : Rat) : (shortest x q).negative = false := by
  unfold shortest
  generalize gridAbove q = p
  generalize (p + 1074).toNat = steps
  induction steps generalizing p with
  | zero => rfl
  | succ steps ih =>
    unfold shortestFrom
    split
    · rfl
    · exact ih (p - 1)

end CssValues.Decimal
