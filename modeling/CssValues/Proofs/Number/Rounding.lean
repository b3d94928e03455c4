import CssValues.Number.Rounding
import Mathlib.Algebra.Order.Field.Power
import Mathlib.Data.Rat.Floor
import Mathlib.Tactic.Linarith
import Mathlib.Tactic.Positivity

/-!
# What rounding a rational number computes

`nearestEven` keeps integers and takes what is below one half to zero; `floorLog2` finds the binade
of a positive number.
-/

namespace CssValues

/-! ## The nearest integer -/

theorem nearestEven_intCast (n : Int) : nearestEven n = n := by
  simp [nearestEven]

theorem nearestEven_natCast (n : Nat) : nearestEven n = n := nearestEven_intCast n

/-- A magnitude below one half disappears. -/
theorem nearestEven_eq_zero {q : Rat} (h0 : 0 ≤ q) (h1 : q < 1 / 2) : nearestEven q = 0 := by
  have hfloor : q.floor = 0 := by
    show ⌊q⌋ = 0
    exact Int.floor_eq_zero_iff.mpr ⟨h0, by linarith⟩
  simp only [nearestEven, hfloor, Int.cast_zero, sub_zero]
  rw [if_pos h1]

/-! ## The binade of a positive number -/

/-- A natural number between two neighbouring powers of two. -/
theorem log2_bounds {n : Nat} (h : n ≠ 0) :
    (2 : Rat) ^ (n.log2 : Int) ≤ n ∧ (n : Rat) < 2 ^ ((n.log2 : Int) + 1) := by
  constructor
  · rw [zpow_natCast]
    exact_mod_cast Nat.log2_self_le h
  · have := Nat.lt_log2_self (n := n)
    rw [show (n.log2 : Int) + 1 = ((n.log2 + 1 : Nat) : Int) by push_cast; rfl, zpow_natCast]
    exact_mod_cast this

/-- Numerator and denominator leave two binades. -/
theorem log2_candidates {q : Rat} (h : 0 < q) :
    (2 : Rat) ^ ((q.num.natAbs.log2 : Int) - q.den.log2 - 1) ≤ q ∧
      q < 2 ^ ((q.num.natAbs.log2 : Int) - q.den.log2 + 1) := by
  have hden : (0 : Rat) < q.den := by exact_mod_cast q.den_pos
  have hnum : (q.num.natAbs : Int) = q.num := Int.natAbs_of_nonneg (Rat.num_pos.mpr h).le
  have hq : q * q.den = q.num.natAbs := by
    rw [Rat.mul_den_eq_num, ← Int.cast_natCast, hnum]
  have hne : q.num.natAbs ≠ 0 := by have := Rat.num_pos.mpr h; omega
  obtain ⟨hn1, hn2⟩ := log2_bounds hne
  obtain ⟨hd1, hd2⟩ := log2_bounds q.den_nz
  have htwo : (2 : Rat) ≠ 0 := by norm_num
  generalize (q.num.natAbs.log2 : Int) = a at *
  generalize (q.den.log2 : Int) = b at *
  constructor
  · refine le_of_mul_le_mul_right ?_ hden
    calc (2 : Rat) ^ (a - b - 1) * q.den
        ≤ 2 ^ (a - b - 1) * 2 ^ (b + 1) := mul_le_mul_of_nonneg_left hd2.le (by positivity)
      _ = 2 ^ a := by rw [← zpow_add₀ htwo]; congr 1; omega
      _ ≤ q * q.den := by rw [hq]; exact hn1
  · refine lt_of_mul_lt_mul_right ?_ hden.le
    calc q * q.den = q.num.natAbs := hq
      _ < 2 ^ (a + 1) := hn2
      _ = 2 ^ (a - b + 1) * 2 ^ b := by rw [← zpow_add₀ htwo]; congr 1; omega
      _ ≤ 2 ^ (a - b + 1) * q.den := mul_le_mul_of_nonneg_left hd1 (by positivity)

/-- **Binade.** `floorLog2` is the exponent of the power of two at or below. -/
theorem floorLog2_bounds {q : Rat} (h : 0 < q) :
    (2 : Rat) ^ floorLog2 q ≤ q ∧ q < 2 ^ (floorLog2 q + 1) := by
  obtain ⟨hlow, hhigh⟩ := log2_candidates h
  unfold floorLog2
  dsimp only
  split
  · next hle => exact ⟨hle, hhigh⟩
  · next hlt =>
    refine ⟨hlow, ?_⟩
    rw [Int.sub_add_cancel]
    exact not_le.mp hlt

theorem floorLog2_lt {q : Rat} (h : 0 < q) {k : Int} (hk : q < 2 ^ k) : floorLog2 q < k :=
  (zpow_lt_zpow_iff_right₀ (by norm_num : (1 : Rat) < 2)).mp
    ((floorLog2_bounds h).1.trans_lt hk)

theorem le_floorLog2 {q : Rat} (h : 0 < q) {k : Int} (hk : (2 : Rat) ^ k ≤ q) :
    k ≤ floorLog2 q := by
  have hlt : (2 : Rat) ^ k < 2 ^ (floorLog2 q + 1) := hk.trans_lt (floorLog2_bounds h).2
  have := (zpow_lt_zpow_iff_right₀ (by norm_num : (1 : Rat) < 2)).mp hlt
  omega

end CssValues
