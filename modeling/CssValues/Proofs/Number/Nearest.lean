import CssValues.Proofs.Number.Binary64
import Mathlib.Algebra.Order.Field.Rat
import Mathlib.Tactic.FieldSimp

/-!
# The nearest double

What `ofMagnitude` computes, said without its grid: `IsNearest` compares a double with all others.
A magnitude has a nearest finite double if it is below `overflow`, there is only one, and
`ofMagnitude` finds it (`Binary64.isNearest_iff`).
-/

namespace CssValues

/-! ## The nearest integer -/

theorem nearestEven_cases (q : Rat) :
    |(nearestEven q : Rat) - q| < 1 / 2
      ∨ |(nearestEven q : Rat) - q| = 1 / 2 ∧ nearestEven q % 2 = 0 := by
  have hlow : (⌊q⌋ : Rat) ≤ q := Int.floor_le q
  have hhigh : q < ⌊q⌋ + 1 := Int.lt_floor_add_one q
  have hfloor : q.floor = ⌊q⌋ := rfl
  unfold nearestEven
  rw [hfloor]
  dsimp only
  split_ifs with hdown hup heven
  · left
    rw [abs_lt]
    constructor <;> linarith
  · left
    push_cast
    rw [abs_lt]
    constructor <;> linarith
  · right
    refine ⟨?_, heven⟩
    rw [abs_of_nonpos] <;> linarith
  · right
    push_cast
    refine ⟨?_, by omega⟩
    rw [abs_of_nonneg] <;> linarith

/-- **Nearest integer.** Any other integer is farther, or as far and odd while the nearest one is
even. -/
theorem nearestEven_nearest (q : Rat) {k : Int} (hk : k ≠ nearestEven q) :
    |(nearestEven q : Rat) - q| < |(k : Rat) - q|
      ∨ |(nearestEven q : Rat) - q| = |(k : Rat) - q| ∧ nearestEven q % 2 = 0 ∧ k % 2 = 1 := by
  have hgap : (1 : Rat) ≤ |(k : Rat) - nearestEven q| := by
    exact_mod_cast Int.one_le_abs (sub_ne_zero.mpr hk)
  have htriangle : |(k : Rat) - nearestEven q| ≤ |(k : Rat) - q| + |(nearestEven q : Rat) - q| := by
    rw [abs_sub_comm (nearestEven q : Rat) q]
    exact abs_sub_le _ _ _
  rcases nearestEven_cases q with hless | ⟨hhalf, heven⟩
  · left
    linarith
  · rcases (show (1 : Rat) / 2 ≤ |(k : Rat) - q| by linarith).lt_or_eq with hmore | hsame
    · left
      linarith
    · right
      refine ⟨by linarith, heven, ?_⟩
      -- both are half a unit away, so they are neighbours
      have hone : |(k : Rat) - nearestEven q| = 1 := by linarith
      have hone : |k - nearestEven q| = 1 := by exact_mod_cast hone
      rcases abs_eq (by omega) |>.mp hone with h | h <;> omega

/-- Rounding does not pass an integer. -/
theorem le_nearestEven {q : Rat} {k : Int} (h : (k : Rat) ≤ q) : k ≤ nearestEven q := by
  by_contra hlt
  have hnext : (nearestEven q : Rat) + 1 ≤ k := by
    exact_mod_cast (show nearestEven q + 1 ≤ k by omega)
  have hdist : |(nearestEven q : Rat) - q| = q - nearestEven q := by
    rw [abs_of_nonpos] <;> linarith
  rcases nearestEven_cases q with hless | ⟨hhalf, -⟩ <;> linarith

theorem nearestEven_le {q : Rat} {k : Int} (h : q ≤ k) : nearestEven q ≤ k := by
  by_contra hlt
  have hnext : (k : Rat) + 1 ≤ nearestEven q := by
    exact_mod_cast (show k + 1 ≤ nearestEven q by omega)
  have hdist : |(nearestEven q : Rat) - q| = nearestEven q - q := abs_of_nonneg (by linarith)
  rcases nearestEven_cases q with hless | ⟨hhalf, -⟩ <;> linarith

/-- From half a unit above an odd integer on, rounding leaves that integer. -/
theorem lt_nearestEven_of_odd {q : Rat} {k : Int} (hk : k % 2 = 1) (h : (k : Rat) + 1 / 2 ≤ q) :
    k < nearestEven q := by
  have hle : k ≤ nearestEven q := le_nearestEven (by linarith)
  refine lt_of_le_of_ne hle ?_
  intro heq
  have hdist : |(nearestEven q : Rat) - q| = q - k := by
    rw [← heq, abs_of_nonpos (by linarith)]
    ring
  rcases nearestEven_cases q with hless | ⟨-, heven⟩
  · linarith
  · omega

namespace Binary64

/-! ## Nearest doubles -/

/-- The least magnitude that is rounded to infinity: half a step above the greatest double. -/
def overflow : Rat := 2 ^ (1024 : Int) - 2 ^ (970 : Int)

/-- `x` is the finite double of the given sign nearest to the magnitude `q`. Of two that are as near
it is the one with the even significand. -/
def IsNearest (negative : Bool) (q : Rat) (x : Binary64) : Prop :=
  q < overflow ∧ ∃ m e h, x = .finite negative m e h ∧ ∀ n f, FitsBinary64 n f →
    |exact false m e - q| < |exact false n f - q|
      ∨ |exact false m e - q| = |exact false n f - q|
        ∧ (exact false n f = exact false m e ∨ m % 2 = 0)

theorem IsNearest.isFinite {negative : Bool} {q : Rat} {x : Binary64}
    (h : IsNearest negative q x) : x.isFinite = true := by
  obtain ⟨-, m, e, hfits, rfl, -⟩ := h
  rfl

theorem IsNearest.isNegative {negative : Bool} {q : Rat} {x : Binary64}
    (h : IsNearest negative q x) : x.isNegative = negative := by
  obtain ⟨-, m, e, hfits, rfl, -⟩ := h
  rfl

/-! ## The grid of a magnitude -/

/-- The multiple of the step of its grid that a magnitude is rounded to. -/
def gridPoint (q : Rat) : Int := nearestEven (q / (2 : Rat) ^ gridExponent q)

variable {q : Rat}

theorem gridExponent_ge (q : Rat) : -1074 ≤ gridExponent q := le_max_left _ _

/-- A magnitude has at most 53 bits on its grid. -/
theorem lt_grid (hq : 0 < q) : q < 9007199254740992 * (2 : Rat) ^ gridExponent q := by
  have hlog : floorLog2 q + 1 ≤ 53 + gridExponent q := by unfold gridExponent; omega
  calc q < 2 ^ (floorLog2 q + 1) := (floorLog2_bounds hq).2
    _ ≤ 2 ^ (53 + gridExponent q) := zpow_le_zpow_right₀ (by norm_num) hlog
    _ = 9007199254740992 * 2 ^ gridExponent q := by rw [zpow_add₀ (by norm_num)]; norm_num

/-- Above the least grid a magnitude has 53 bits. -/
theorem grid_le (hq : 0 < q) (he : -1074 < gridExponent q) :
    4503599627370496 * (2 : Rat) ^ gridExponent q ≤ q := by
  have hlog : 52 + gridExponent q = floorLog2 q := by unfold gridExponent at he ⊢; omega
  calc 4503599627370496 * (2 : Rat) ^ gridExponent q = 2 ^ (52 + gridExponent q) := by
        rw [zpow_add₀ (by norm_num)]; norm_num
    _ = 2 ^ floorLog2 q := by rw [hlog]
    _ ≤ q := (floorLog2_bounds hq).1

theorem gridPoint_le (hq : 0 < q) : gridPoint q ≤ 9007199254740992 := by
  refine nearestEven_le ?_
  rw [div_le_iff₀ (by positivity)]
  exact_mod_cast (lt_grid hq).le

theorem gridPoint_nonneg (hq : 0 < q) : 0 ≤ gridPoint q :=
  le_nearestEven (by rw [Int.cast_zero]; positivity)

theorem le_gridPoint (hq : 0 < q) (he : -1074 < gridExponent q) :
    4503599627370496 ≤ gridPoint q := by
  refine le_nearestEven ?_
  rw [le_div_iff₀ (by positivity)]
  exact_mod_cast grid_le hq he

theorem gridExponent_le (hq : 0 < q) (h : q < (2 : Rat) ^ (1024 : Int)) : gridExponent q ≤ 971 := by
  have hlog : floorLog2 q < 1024 := floorLog2_lt hq h
  unfold gridExponent
  omega

/-- Distances on the grid, in steps of the grid. -/
theorem abs_grid_sub (k : Int) (q : Rat) :
    |k * (2 : Rat) ^ gridExponent q - q|
      = |(k : Rat) - q / 2 ^ gridExponent q| * 2 ^ gridExponent q := by
  have hstep : (0 : Rat) < 2 ^ gridExponent q := by positivity
  rw [← abs_of_pos hstep, ← abs_mul, abs_of_pos hstep, sub_mul, div_mul_cancel₀ _ hstep.ne']

theorem abs_gridPoint_sub_le (q : Rat) (k : Int) :
    |gridPoint q * (2 : Rat) ^ gridExponent q - q| ≤ |k * (2 : Rat) ^ gridExponent q - q| := by
  rw [abs_grid_sub, abs_grid_sub]
  refine mul_le_mul_of_nonneg_right ?_ (by positivity)
  by_cases hk : k = gridPoint q
  · rw [hk]
  · rcases nearestEven_nearest _ hk with hless | ⟨hsame, -⟩
    · exact hless.le
    · exact hsame.le

/-- A double with a greater exponent is on the grid. -/
theorem exact_eq_of_le {n : Nat} {e f : Int} (h : e ≤ f) :
    exact false n f = ((n * 2 ^ (f - e).toNat : Int) : Rat) * 2 ^ e := by
  have hgap : ((f - e).toNat : Int) = f - e := Int.toNat_of_nonneg (by omega)
  unfold exact
  rw [if_neg (by decide)]
  push_cast
  rw [mul_assoc, ← zpow_natCast, hgap, ← zpow_add₀ (by norm_num), sub_add_cancel]

/-- A double with a smaller exponent is below the binade of the grid. -/
theorem exact_lt_of_lt {n : Nat} {e f : Int} (h : FitsBinary64 n f) (hf : f < e) :
    exact false n f < 4503599627370496 * 2 ^ e := by
  have hn : (n : Rat) < 9007199254740992 := by exact_mod_cast h.1
  calc exact false n f = n * 2 ^ f := rfl
    _ < 9007199254740992 * 2 ^ f := mul_lt_mul_of_pos_right hn (by positivity)
    _ ≤ 9007199254740992 * 2 ^ (e - 1) :=
        mul_le_mul_of_nonneg_left (zpow_le_zpow_right₀ (by norm_num) (by omega)) (by norm_num)
    _ = 4503599627370496 * 2 ^ e := by
        rw [zpow_sub₀ (by norm_num)]; ring

/-- An odd multiple of a power of two has an odd factor. -/
theorem odd_of_mul_pow {n k : Nat} (h : (n * 2 ^ k : Int) % 2 = 1) : n % 2 = 1 := by
  rw [Int.mul_emod] at h
  rcases Nat.mod_two_eq_zero_or_one n with hn | hn
  · rw [show (n : Int) % 2 = 0 by omega] at h
    simp at h
  · exact hn

/-- **Nearest on the grid.** A double off the grid point of `q` is farther from `q`, or it is as far
and odd while the grid point is even. -/
theorem gridPoint_nearest (hq : 0 < q) {n : Nat} {f : Int} (h : FitsBinary64 n f)
    (hne : exact false n f ≠ gridPoint q * (2 : Rat) ^ gridExponent q) :
    |gridPoint q * (2 : Rat) ^ gridExponent q - q| < |exact false n f - q|
      ∨ |gridPoint q * (2 : Rat) ^ gridExponent q - q| = |exact false n f - q|
        ∧ gridPoint q % 2 = 0 ∧ n % 2 = 1 := by
  by_cases hf : gridExponent q ≤ f
  · have hstep : (0 : Rat) < 2 ^ gridExponent q := by positivity
    rw [exact_eq_of_le hf] at hne ⊢
    have hk : (n * 2 ^ (f - gridExponent q).toNat : Int) ≠ gridPoint q := by
      rintro heq
      exact hne (by rw [heq])
    rw [abs_grid_sub, abs_grid_sub]
    rcases nearestEven_nearest _ hk with hless | ⟨hsame, heven, hodd⟩
    · exact .inl (mul_lt_mul_of_pos_right hless hstep)
    · exact .inr ⟨congrArg (· * _) hsame, heven, odd_of_mul_pow hodd⟩
  · -- the start of the binade of `q` is on the grid and lies between the double and `q`
    have he : -1074 < gridExponent q := by have := h.2.1; omega
    have hstart := grid_le hq he
    have hbelow := exact_lt_of_lt h (not_le.mp hf)
    left
    refine (abs_gridPoint_sub_le q 4503599627370496).trans_lt ?_
    push_cast
    rw [abs_of_nonpos (by linarith), abs_of_nonpos (by linarith)]
    linarith

/-! ## What rounding gives -/

/-- Rounding gives the grid point, with a significand that is even if the grid point is, unless that
is beyond the doubles. -/
theorem ofMagnitude_eq_gridPoint (negative : Bool) (hq : 0 < q) (he : gridExponent q ≤ 971)
    (hlast : gridPoint q = 9007199254740992 → gridExponent q < 971) :
    ∃ m e h, ofMagnitude negative q = .finite negative m e h
      ∧ exact false m e = gridPoint q * (2 : Rat) ^ gridExponent q
      ∧ (gridPoint q % 2 = 0 → m % 2 = 0) := by
  have hnonneg := gridPoint_nonneg hq
  have hle := gridPoint_le hq
  have hleast := gridExponent_ge q
  have hnat : ((gridPoint q).toNat : Rat) = gridPoint q := by
    exact_mod_cast Int.toNat_of_nonneg hnonneg
  unfold ofMagnitude
  rw [if_neg hq.ne']
  dsimp only
  rw [← gridPoint]
  split
  · next hcarry =>
    have hpoint : gridPoint q = 9007199254740992 := by omega
    have hfits : FitsBinary64 4503599627370496 (gridExponent q + 1) :=
      ⟨by omega, by omega, by have := hlast hpoint; omega, .inl le_rfl⟩
    refine ⟨_, _, hfits, pack_fits negative hfits, ?_, fun _ => by omega⟩
    rw [hpoint, exact, if_neg (by decide), zpow_add₀ (by norm_num)]
    push_cast
    ring
  · next hless =>
    have hfull : 4503599627370496 ≤ (gridPoint q).toNat ∨ gridExponent q = -1074 := by
      by_cases hmore : -1074 < gridExponent q
      · left
        have := le_gridPoint hq hmore
        omega
      · right
        omega
    have hfits : FitsBinary64 (gridPoint q).toNat (gridExponent q) :=
      ⟨by omega, hleast, he, hfull⟩
    refine ⟨_, _, hfits, pack_fits negative hfits, ?_, fun _ => by omega⟩
    rw [← hnat]
    rfl

theorem overflow_eq : overflow = (9007199254740992 - 1 / 2) * (2 : Rat) ^ (971 : Int) := by
  unfold overflow
  rw [show (1024 : Int) = 53 + 971 by rfl, show (970 : Int) = -1 + 971 by rfl,
    zpow_add₀ (by norm_num), zpow_add₀ (by norm_num), ← sub_mul]
  norm_num

theorem overflow_lt : overflow < (2 : Rat) ^ (1024 : Int) :=
  sub_lt_self _ (by positivity)

/-- Below the overflow the greatest exponent has room. -/
theorem gridExponent_lt_of_carry (hq : 0 < q) (h : q < overflow)
    (hpoint : gridPoint q = 9007199254740992) : gridExponent q < 971 := by
  have hle := gridExponent_le hq (h.trans overflow_lt)
  refine lt_of_le_of_ne hle ?_
  intro he
  rw [overflow_eq, ← he, ← div_lt_iff₀ (by positivity)] at h
  -- the last significand is as near as the carry, or nearer
  have hdist : |((9007199254740992 : Int) : Rat) - q / 2 ^ gridExponent q|
      = 9007199254740992 - q / 2 ^ gridExponent q := by
    push_cast
    exact abs_of_nonneg (by linarith)
  rcases nearestEven_cases (q / 2 ^ gridExponent q) with hless | ⟨hhalf, -⟩
  · rw [← gridPoint, hpoint, hdist] at hless
    linarith
  · rw [← gridPoint, hpoint, hdist] at hhalf
    linarith

/-- **Existence.** Below the overflow rounding gives the nearest double. -/
theorem isNearest_ofMagnitude (negative : Bool) (h0 : 0 ≤ q) (h : q < overflow) :
    IsNearest negative q (ofMagnitude negative q) := by
  refine ⟨h, ?_⟩
  rcases h0.eq_or_lt with rfl | hq
  · refine ⟨0, -1074, by decide, ofMagnitude_zero negative, fun n f _ => ?_⟩
    rw [show exact false 0 (-1074) = 0 by simp [exact], sub_zero, sub_zero, abs_zero]
    rcases (abs_nonneg (exact false n f)).eq_or_lt with hzero | hpos
    · exact .inr ⟨hzero, .inl (abs_eq_zero.mp hzero.symm)⟩
    · exact .inl hpos
  · obtain ⟨m, e, hfits, heq, hvalue, heven⟩ := ofMagnitude_eq_gridPoint negative hq
      (gridExponent_le hq (h.trans overflow_lt)) (gridExponent_lt_of_carry hq h)
    refine ⟨m, e, hfits, heq, fun n f hn => ?_⟩
    rw [hvalue]
    by_cases hsame : exact false n f = gridPoint q * (2 : Rat) ^ gridExponent q
    · exact .inr ⟨by rw [hsame], .inl hsame⟩
    · rcases gridPoint_nearest hq hn hsame with hless | ⟨htie, hpoint, -⟩
      · exact .inl hless
      · exact .inr ⟨htie, .inr (heven hpoint)⟩

/-- **Uniqueness.** There is no other nearest double. -/
theorem IsNearest.eq_ofMagnitude {negative : Bool} {x : Binary64} (h0 : 0 ≤ q)
    (h : IsNearest negative q x) : x = ofMagnitude negative q := by
  obtain ⟨-, n, f, hn, heq, hrounded⟩ := isNearest_ofMagnitude negative h0 h.1
  obtain ⟨hbelow, m, e, hm, rfl, hother⟩ := h
  suffices hvalue : exact false m e = exact false n f by
    rw [heq, ← ofMagnitude_exact negative hm, ← ofMagnitude_exact negative hn, hvalue]
  by_contra hne
  -- two different doubles that are as near as each other have an even and an odd significand
  have hdist : |exact false m e - q| = |exact false n f - q| := by
    rcases hother n f hn with hless | ⟨hsame, -⟩
    · rcases hrounded m e hm with hmore | ⟨hsame, -⟩
      · exact absurd hmore hless.asymm
      · exact hsame.symm
    · exact hsame
  have heven : m % 2 = 0 := by
    rcases hother n f hn with hless | ⟨-, hsame | heven⟩
    · exact absurd hdist hless.ne
    · exact absurd hsame.symm hne
    · exact heven
  rcases h0.eq_or_lt with rfl | hq
  · rw [ofMagnitude_zero] at heq
    cases heq
    rw [show exact false 0 (-1074) = 0 by simp [exact], sub_zero, sub_zero, abs_zero,
      abs_eq_zero] at hdist
    exact hne (hdist.trans (by simp [exact]))
  · obtain ⟨k, g, hk, hgrid, hvalue, -⟩ := ofMagnitude_eq_gridPoint negative hq
      (gridExponent_le hq (hbelow.trans overflow_lt)) (gridExponent_lt_of_carry hq hbelow)
    rw [heq] at hgrid
    cases hgrid
    rw [hvalue] at hne hdist
    rcases gridPoint_nearest hq hm hne with hless | ⟨-, -, hodd⟩
    · exact absurd hdist.symm hless.ne
    · omega

theorem overflow_pos : 0 < overflow := by
  rw [overflow_eq]
  exact mul_pos (by norm_num) (by positivity)

/-- From the overflow to the next power of two the grid is the greatest one. -/
theorem gridExponent_of_overflow (h : overflow ≤ q) (hlarge : q < (2 : Rat) ^ (1024 : Int)) :
    gridExponent q = 971 := by
  refine gridExponent_of_binade (by norm_num) ?_ ?_
  · refine le_trans (mul_le_mul_of_nonneg_right ?_ (by positivity)) (overflow_eq ▸ h)
    norm_num
  · refine hlarge.trans_eq ?_
    rw [show (1024 : Int) = 53 + 971 by rfl, zpow_add₀ (by norm_num)]
    norm_num

/-- The overflow is a tie, and it is not rounded to the last significand, which is odd. -/
theorem gridPoint_of_overflow (h : overflow ≤ q) (he : gridExponent q = 971) :
    gridPoint q = 9007199254740992 := by
  have hle := gridPoint_le (overflow_pos.trans_le h)
  have hgreater : 9007199254740991 < gridPoint q := by
    rw [overflow_eq, ← le_div_iff₀ (by positivity), ← he] at h
    refine lt_nearestEven_of_odd (by decide) ?_
    push_cast
    linarith
  omega

/-- From the overflow on rounding gives an infinity. -/
theorem ofMagnitude_of_overflow (negative : Bool) (h : overflow ≤ q) :
    ofMagnitude negative q = .infinite negative := by
  have hq : 0 < q := overflow_pos.trans_le h
  by_cases hlarge : (2 : Rat) ^ (1024 : Int) ≤ q
  · exact ofMagnitude_large negative hlarge
  · have he := gridExponent_of_overflow h (not_le.mp hlarge)
    have hpoint := gridPoint_of_overflow h he
    have hcarry : (gridPoint q).toNat = 9007199254740992 := by omega
    unfold ofMagnitude
    rw [if_neg hq.ne']
    dsimp only
    rw [← gridPoint, if_pos hcarry, he]
    exact pack_large negative _ (by norm_num)

/-- **Rounding.** What is rounded to a finite double is rounded to the nearest one. -/
theorem isNearest_iff {negative : Bool} {x : Binary64} (h0 : 0 ≤ q) :
    IsNearest negative q x ↔ ofMagnitude negative q = x ∧ x.isFinite = true := by
  constructor
  · intro h
    exact ⟨(h.eq_ofMagnitude h0).symm, h.isFinite⟩
  · rintro ⟨rfl, hfinite⟩
    by_cases h : q < overflow
    · exact isNearest_ofMagnitude negative h0 h
    · rw [ofMagnitude_of_overflow negative (not_lt.mp h)] at hfinite
      cases hfinite

end Binary64

end CssValues
