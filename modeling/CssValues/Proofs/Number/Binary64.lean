import CssValues.Number.Binary64
import CssValues.Proofs.Number.Rounding
import Mathlib.Tactic.NormNum
import Mathlib.Tactic.Ring

/-!
# What rounding to a double computes

Main results: a double is the rounding of its own exact value (`ofMagnitude_exact`); magnitudes from
`2 ^ 1024` on overflow (`ofMagnitude_large`), those below half of the least double vanish
(`ofMagnitude_small`).
-/

namespace CssValues.Binary64

/-- Nothing but the canonical form of zero has the significand zero. -/
theorem finite_zero (negative : Bool) {e : Int} (h : FitsBinary64 0 e) :
    finite negative 0 e h = zero negative := by
  obtain rfl : e = -1074 := h.2.2.2.resolve_left (by omega)
  rfl

theorem pack_fits (negative : Bool) {m : Nat} {e : Int} (h : FitsBinary64 m e) :
    pack negative m e = .finite negative m e h := dif_pos h

theorem pack_large (negative : Bool) (m : Nat) {e : Int} (h : 971 < e) :
    pack negative m e = .infinite negative :=
  dif_neg fun hfits => by have := hfits.2.2.1; omega

theorem pack_cases (negative : Bool) (m : Nat) (e : Int) :
    (∃ h, pack negative m e = .finite negative m e h) ∨ pack negative m e = .infinite negative := by
  unfold pack
  split
  · next h => exact .inl ⟨h, rfl⟩
  · exact .inr rfl

theorem abs_pack (negative : Bool) (m : Nat) (e : Int) :
    (pack negative m e).abs = pack false m e := by
  unfold pack
  split <;> rfl

/-! ## The grid -/

theorem gridExponent_of_binade {q : Rat} {e : Int} (he : -1074 ≤ e)
    (hlow : (4503599627370496 : Rat) * 2 ^ e ≤ q) (hhigh : q < 9007199254740992 * 2 ^ e) :
    gridExponent q = e := by
  have hpos : 0 < q := lt_of_lt_of_le (by positivity) hlow
  have h1 : 52 + e ≤ floorLog2 q := le_floorLog2 hpos (by
    rw [zpow_add₀ (by norm_num)]; norm_num; exact hlow)
  have h2 : floorLog2 q < 53 + e := floorLog2_lt hpos (by
    rw [zpow_add₀ (by norm_num)]; norm_num; exact hhigh)
  unfold gridExponent
  omega

/-- Below the full significands of the least exponent the grid gets no finer. -/
theorem gridExponent_least {q : Rat} (hpos : 0 < q)
    (hhigh : q < 9007199254740992 * (2 : Rat) ^ (-1074 : Int)) : gridExponent q = -1074 := by
  have h : floorLog2 q < 53 + (-1074) := floorLog2_lt hpos (by
    rw [zpow_add₀ (by norm_num)]; norm_num at hhigh ⊢; exact hhigh)
  unfold gridExponent
  omega

theorem gridExponent_exact {m : Nat} {e : Int} (hm : m ≠ 0) (h : FitsBinary64 m e) :
    gridExponent (exact false m e) = e := by
  obtain ⟨hlt, hleast, -, hfull⟩ := h
  have hpow : (0 : Rat) < 2 ^ e := by positivity
  have hm0 : (0 : Rat) < m := by exact_mod_cast Nat.pos_of_ne_zero hm
  have hhigh : (m : Rat) * 2 ^ e < 9007199254740992 * 2 ^ e :=
    mul_lt_mul_of_pos_right (by exact_mod_cast hlt) hpow
  rcases hfull with hfull | rfl
  · exact gridExponent_of_binade hleast
      (mul_le_mul_of_nonneg_right (by exact_mod_cast hfull) hpow.le) hhigh
  · exact gridExponent_least (mul_pos hm0 hpow) hhigh

/-! ## Values that are doubles already -/

/-- **Exact values.** A finite double is what its own value rounds to. -/
theorem ofMagnitude_exact (negative : Bool) {m : Nat} {e : Int} (h : FitsBinary64 m e) :
    ofMagnitude negative (exact false m e) = .finite negative m e h := by
  by_cases hm : m = 0
  · subst hm
    rw [finite_zero]
    simp [ofMagnitude, exact]
  · have hpow : (2 : Rat) ^ e ≠ 0 := by positivity
    have hq : exact false m e ≠ 0 :=
      mul_ne_zero (by exact_mod_cast hm) hpow
    have hquot : exact false m e / 2 ^ e = m := mul_div_cancel_right₀ _ hpow
    have hlt : m ≠ 9007199254740992 := by have := h.1; omega
    unfold ofMagnitude
    rw [if_neg hq]
    simp only [gridExponent_exact hm h, hquot, nearestEven_natCast, Int.toNat_natCast]
    rw [if_neg hlt, pack_fits negative h]

/-! ## Rounding from either side -/

theorem ofMagnitude_zero (negative : Bool) : ofMagnitude negative 0 = zero negative := if_pos rfl

/-- Rounding a magnitude gives no NaN, and the sign asked for. -/
theorem ofMagnitude_cases (negative : Bool) (q : Rat) :
    (∃ m e h, ofMagnitude negative q = .finite negative m e h)
      ∨ ofMagnitude negative q = .infinite negative := by
  unfold ofMagnitude
  split
  · exact .inl ⟨0, -1074, by decide, rfl⟩
  · dsimp only
    split
    · rcases pack_cases negative 4503599627370496 (gridExponent q + 1) with ⟨h, heq⟩ | heq
      · exact .inl ⟨_, _, h, heq⟩
      · exact .inr heq
    · rcases pack_cases negative (nearestEven (q / 2 ^ gridExponent q)).toNat (gridExponent q) with
        ⟨h, heq⟩ | heq
      · exact .inl ⟨_, _, h, heq⟩
      · exact .inr heq

/-- Rounding goes by the magnitude; the sign is only carried along. -/
theorem abs_ofMagnitude (negative : Bool) (q : Rat) :
    (ofMagnitude negative q).abs = ofMagnitude false q := by
  unfold ofMagnitude
  split
  · rfl
  · dsimp only
    split
    · exact abs_pack negative _ _
    · exact abs_pack negative _ _

theorem ofMagnitude_sign {q : Rat} {m : Nat} {e : Int} {h : FitsBinary64 m e}
    (hq : ofMagnitude false q = .finite false m e h) (negative : Bool) :
    ofMagnitude negative q = .finite negative m e h := by
  have habs := abs_ofMagnitude negative q
  rw [hq] at habs
  rcases ofMagnitude_cases negative q with ⟨n, f, hn, heq⟩ | heq
  · rw [heq] at habs ⊢
    cases habs
    rfl
  · rw [heq] at habs
    cases habs

/-- **Overflow.** -/
theorem ofMagnitude_large (negative : Bool) {q : Rat} (h : (2 : Rat) ^ (1024 : Int) ≤ q) :
    ofMagnitude negative q = .infinite negative := by
  have hpos : 0 < q := lt_of_lt_of_le (by positivity) h
  have hlog : 1024 ≤ floorLog2 q := le_floorLog2 hpos h
  have hgrid : 971 < gridExponent q := by unfold gridExponent; omega
  unfold ofMagnitude
  rw [if_neg hpos.ne']
  dsimp only
  split
  · exact pack_large negative _ (by omega)
  · exact pack_large negative _ hgrid

/-- **Underflow.** -/
theorem ofMagnitude_small (negative : Bool) {q : Rat} (h0 : 0 ≤ q)
    (h : q < (2 : Rat) ^ (-1075 : Int)) : ofMagnitude negative q = zero negative := by
  rcases h0.eq_or_lt with rfl | hpos
  · exact ofMagnitude_zero negative
  · have hstep : (2 : Rat) ^ (-1075 : Int) = 1 / 2 * 2 ^ (-1074 : Int) := by
      rw [show (-1075 : Int) = -1 + -1074 by rfl, zpow_add₀ (by norm_num)]
      norm_num
    have hunit : (0 : Rat) < 2 ^ (-1074 : Int) := by positivity
    have hgrid : gridExponent q = -1074 := by
      refine gridExponent_least hpos (h.trans_le ?_)
      rw [hstep]
      exact mul_le_mul_of_nonneg_right (by norm_num) hunit.le
    have hzero : nearestEven (q / 2 ^ (-1074 : Int)) = 0 := by
      refine nearestEven_eq_zero (by positivity) ?_
      rw [div_lt_iff₀ hunit, ← hstep]
      exact h
    unfold ofMagnitude
    rw [if_neg hpos.ne']
    simp only [hgrid, hzero, Int.toNat_zero]
    rw [if_neg (by decide), pack_fits negative (by decide)]
    rfl

end CssValues.Binary64
