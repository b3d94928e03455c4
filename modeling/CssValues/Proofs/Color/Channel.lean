import CssValues.Color.Basic
import CssValues.Proofs.Number.Error

/-!
# The channel of a number

A channel is computed from an exact number with small errors, and then rounded
(`Channel.IsNearest`). It keeps the order of the exact numbers where the gap between them is wider
than the errors, or where one of them is an integer.
-/

namespace CssValues

open Number

namespace Channel

/-- The channel is rounded from a number that is off the exact one by at most `ε`. -/
def IsNearest (ε X : Rat) (k : Channel) : Prop := ∃ x, |x - X| ≤ ε ∧ (k.val : Int) = nearestEven x

variable {ε X Y v : Rat} {k m : Channel} {n : Number}

theorem val_ofInt {i : Int} (h0 : 0 ≤ i) (h1 : i ≤ 255) : ((ofInt i).val : Int) = i := by
  have hlevel : (ofInt i).val = i.toNat := Nat.min_eq_left (by omega)
  omega

theorem val_le (a : Channel) : (a.val : Rat) ≤ 255 := by exact_mod_cast Nat.le_of_lt_succ a.isLt

theorem share_mem (a : Channel) : 0 ≤ (a.val : Rat) / 255 ∧ (a.val : Rat) / 255 ≤ 1 :=
  ⟨by positivity, by linarith [a.val_le]⟩

/-- To keep a number within the levels moves it no further away from a level. -/
theorem abs_clamp_sub_le (h0 : 0 ≤ X) (h1 : X ≤ 255) :
    |max 0 (min 255 v) - X| ≤ |v - X| := by
  rcases le_total v 0 with hlow | hlow
  · rw [min_eq_right (by linarith), max_eq_left hlow, abs_of_nonpos (by linarith),
      abs_of_nonpos (by linarith)]
    linarith
  rcases le_total v 255 with hhigh | hhigh
  · rw [min_eq_right hhigh, max_eq_right hlow]
  · rw [min_eq_left hhigh, max_eq_right (by norm_num), abs_of_nonneg (by linarith),
      abs_of_nonneg (by linarith)]
    linarith

theorem ofNumber_of_isAt (h : n.IsAt v) :
    ofNumber n = .ok (ofInt (nearestEven (max 0 (min 255 v)))) := by
  have hclamp := isAt_max isAt_zero (isAt_min (isAt_int 255) h)
  rw [Int.cast_ofNat] at hclamp
  unfold ofNumber
  rw [show Number.max 0 (Number.min 255 n) = Number.max 0 (Number.min (int 255) n) from rfl,
    round_of_isAt hclamp]
  rfl

theorem ofNumber_isNearest (h : n.IsAt v) (hv : |v - X| ≤ ε) (h0 : 0 ≤ X) (h1 : X ≤ 255) :
    Yields (ofNumber n) (IsNearest ε X) := by
  have hlow : 0 ≤ nearestEven (max 0 (min 255 v)) := le_nearestEven (by simp)
  have hhigh : nearestEven (max 0 (min 255 v)) ≤ 255 := nearestEven_le (by simp)
  exact ⟨_, ofNumber_of_isAt h, _, (abs_clamp_sub_le h0 h1).trans hv, val_ofInt hlow hhigh⟩

namespace IsNearest

/-- The channel is off the exact number by half a level and the error. -/
theorem dist_le (h : IsNearest ε X k) : |(k.val : Rat) - X| ≤ 1 / 2 + ε := by
  obtain ⟨x, hx, hk⟩ := h
  have hround := abs_nearestEven_sub_le x
  rw [← hk, Int.cast_natCast] at hround
  have hsum := abs_sub_le (k.val : Rat) x X
  linarith

theorem le_of_intCast_le {i : Int} (h : IsNearest ε X k) (hε : ε < 1 / 2) (hi : (i : Rat) ≤ X) :
    i ≤ k.val := by
  obtain ⟨hlow, -⟩ := abs_le.mp h.dist_le
  have hlt : (i : Rat) < (k.val : Int) + 1 := by
    rw [Int.cast_natCast]
    linarith
  exact Int.lt_add_one_iff.mp (by exact_mod_cast hlt)

theorem le_intCast {i : Int} (h : IsNearest ε X k) (hε : ε < 1 / 2) (hi : X ≤ i) : k.val ≤ i := by
  obtain ⟨-, hhigh⟩ := abs_le.mp h.dist_le
  have hlt : ((k.val : Int) : Rat) < i + 1 := by
    rw [Int.cast_natCast]
    linarith
  exact Int.lt_add_one_iff.mp (by exact_mod_cast hlt)

/-- Errors do not change the order across a gap. -/
theorem le_of_gap (h : IsNearest ε X k) (h' : IsNearest ε Y m) (hgap : X + 2 * ε ≤ Y) : k ≤ m := by
  obtain ⟨x, hx, hk⟩ := h
  obtain ⟨y, hy, hm⟩ := h'
  obtain ⟨-, hxhigh⟩ := abs_le.mp hx
  obtain ⟨hylow, -⟩ := abs_le.mp hy
  have hmono := nearestEven_mono (show x ≤ y by linarith)
  exact Fin.le_def.mpr (by omega)

/-- Nor do they next to an integer. -/
theorem le_of_int {i : Int} (h : IsNearest ε X k) (h' : IsNearest ε Y m) (hε : ε < 1 / 2)
    (hX : X ≤ i) (hY : i ≤ Y) : k ≤ m := by
  have hk := h.le_intCast hε hX
  have hm := h'.le_of_intCast_le hε hY
  exact Fin.le_def.mpr (by omega)

/-- Elsewhere they change it by one level. -/
theorem le_add_one (h : IsNearest ε X k) (h' : IsNearest ε Y m) (hε : ε < 1 / 2) (hle : X ≤ Y) :
    k.val ≤ m.val + 1 := by
  obtain ⟨-, hhigh⟩ := abs_le.mp h.dist_le
  obtain ⟨hlow, -⟩ := abs_le.mp h'.dist_le
  have hlt : (k.val : Rat) < (m.val + 1 + 1 : Nat) := by
    push_cast
    linarith
  have hlt' : k.val < m.val + 1 + 1 := by exact_mod_cast hlt
  omega

theorem eq_of_intCast (h : IsNearest ε m.val k) (hε : ε < 1 / 2) : k = m := by
  have hk := h.le_intCast (i := m.val) hε (by rw [Int.cast_natCast])
  have hm := h.le_of_intCast_le (i := m.val) hε (by rw [Int.cast_natCast])
  exact Fin.ext (by omega)

end IsNearest

end Channel

/-! ## Colours -/

/-- No channel of the first colour is above the same channel of the second by more than `k`. -/
structure Color.LeUpTo (k : Nat) (c d : Color) : Prop where
  red : c.red.val ≤ d.red.val + k
  green : c.green.val ≤ d.green.val + k
  blue : c.blue.val ≤ d.blue.val + k

theorem Color.ofNumbers_of_yields {p q s : Channel → Prop} {r g b : Number}
    (hr : Yields (Channel.ofNumber r) p) (hg : Yields (Channel.ofNumber g) q)
    (hb : Yields (Channel.ofNumber b) s) :
    Yields (Color.ofNumbers r g b) fun c => p c.red ∧ q c.green ∧ s c.blue :=
  hr.bind fun _ hi => hg.bind fun _ hj => hb.bind fun _ hk => .ok ⟨hi, hj, hk⟩

end CssValues
