import Mathlib.Algebra.Order.Group.MinMax
import Mathlib.Algebra.Order.Field.Basic
import Mathlib.Algebra.Order.Field.Rat
import Mathlib.Data.Rat.Floor
import Mathlib.Tactic.FieldSimp
import Mathlib.Tactic.Linarith
import Mathlib.Tactic.Positivity
import Mathlib.Tactic.Push

/-!
# The colour circle

The level of a channel as an exact function of hue, saturation and lightness. Hue is counted in
sixths of a turn. A channel rises in the first sixth, is up in the next two, falls in the fourth and
is down in the rest (`shade`); how far up and down is for saturation and lightness to say (`level`).
Levels rise with lightness (`level_mono`), and where hue, saturation and lightness are on the grid of
their rounded values they rise steadily until they are at an end (`level_gap`).
-/

namespace CssValues.Color

variable {l l' s s' x y z z' : Rat}

/-! ## Shades -/

/-- How far a channel is up, from 0 to 1, within a turn that begins where it rises. -/
def shade (y : Rat) : Rat := max 0 (min 1 (2 - |y - 2|))

theorem shade_nonneg (y : Rat) : 0 ≤ shade y := le_max_left _ _

theorem shade_le_one (y : Rat) : shade y ≤ 1 := max_le zero_le_one (min_le_left _ _)

theorem shade_rising (h0 : 0 ≤ y) (h1 : y ≤ 1) : shade y = y := by
  rw [shade, abs_of_nonpos (by linarith), min_eq_right (by linarith), max_eq_right (by linarith)]
  ring

theorem shade_up (h1 : 1 ≤ y) (h3 : y ≤ 3) : shade y = 1 := by
  have hdist : |y - 2| ≤ 1 := abs_le.mpr ⟨by linarith, by linarith⟩
  rw [shade, min_eq_left (by linarith), max_eq_right zero_le_one]

theorem shade_falling (h3 : 3 ≤ y) (h4 : y ≤ 4) : shade y = 4 - y := by
  rw [shade, abs_of_nonneg (by linarith), min_eq_right (by linarith), max_eq_right (by linarith)]
  ring

theorem shade_down (h : y ≤ 0 ∨ 4 ≤ y) : shade y = 0 := by
  have hdist : 2 ≤ |y - 2| := by
    rcases h with h | h
    · rw [abs_of_nonpos (by linarith)]
      linarith
    · rw [abs_of_nonneg (by linarith)]
      linarith
  rw [shade, min_eq_right (by linarith), max_eq_left (by linarith)]

/-- Places that are near have shades that are as near. -/
theorem abs_shade_sub_le (x y : Rat) : |shade x - shade y| ≤ |x - y| := by
  have hpeak : |(2 - |x - 2|) - (2 - |y - 2|)| ≤ |x - y| := by
    have hdist := abs_abs_sub_abs_le (y - 2) (x - 2)
    rw [show y - 2 - (x - 2) = y - x by ring, abs_sub_comm y x] at hdist
    rwa [show 2 - |x - 2| - (2 - |y - 2|) = |y - 2| - |x - 2| by ring]
  unfold shade
  rw [max_comm, max_comm 0, min_comm, min_comm 1]
  exact (abs_max_sub_max_le_abs _ _ 0).trans ((abs_min_sub_min_le_max _ 1 _ 1).trans
    (by simpa using hpeak))

section

variable {e : Rat}

/-- A little beyond a part of the turn the formula of that part is a little off. -/
theorem abs_rising_sub_shade_le (he : 0 ≤ e ∧ e ≤ 1) (h0 : 0 ≤ y) (h1 : y ≤ 1 + e) :
    |y - shade y| ≤ e := by
  rcases le_total y 1 with h | h
  · rw [shade_rising h0 h, sub_self, abs_zero]
    exact he.1
  · rw [shade_up h (by linarith [he.2]), abs_of_nonneg (by linarith)]
    linarith

theorem abs_up_sub_shade_le (he : 0 ≤ e ∧ e ≤ 1) (h1 : 1 - e ≤ y) (h3 : y ≤ 3 + e) :
    |1 - shade y| ≤ e := by
  rcases le_total y 1 with h | h
  · rw [shade_rising (by linarith [he.2]) h, abs_of_nonneg (by linarith)]
    linarith
  rcases le_total y 3 with h' | h'
  · rw [shade_up h h', sub_self, abs_zero]
    exact he.1
  · rw [shade_falling h' (by linarith [he.2]), abs_of_nonneg (by linarith)]
    linarith

theorem abs_falling_sub_shade_le (he : 0 ≤ e ∧ e ≤ 1) (h3 : 3 - e ≤ y) (h4 : y ≤ 4 + e) :
    |4 - y - shade y| ≤ e := by
  rcases le_total y 3 with h | h
  · rw [shade_up (by linarith [he.2]) h, abs_of_nonneg (by linarith)]
    linarith
  rcases le_total y 4 with h' | h'
  · rw [shade_falling h h', sub_self, abs_zero]
    exact he.1
  · rw [shade_down (.inr h'), abs_of_nonpos (by linarith)]
    linarith

theorem abs_shade_le (he : 0 ≤ e ∧ e ≤ 1) (h4 : 4 - e ≤ y) : |shade y| ≤ e := by
  rcases le_total y 4 with h | h
  · rw [shade_falling (by linarith [he.2]) h, abs_of_nonneg (by linarith)]
    linarith
  · rw [shade_down (.inr h), abs_zero]
    exact he.1

end

/-- The shade in the turn or in the one behind it. -/
def wheel (y : Rat) : Rat := max (shade y) (shade (y - 6))

theorem wheel_nonneg (y : Rat) : 0 ≤ wheel y := (shade_nonneg y).trans (le_max_left _ _)

theorem wheel_le_one (y : Rat) : wheel y ≤ 1 := max_le (shade_le_one _) (shade_le_one _)

theorem wheel_eq_shade (h : y ≤ 6) : wheel y = shade y := by
  rw [wheel, shade_down (y := y - 6) (.inl (by linarith)), max_eq_left (shade_nonneg y)]

theorem wheel_eq_shade_sub (h : 4 ≤ y) : wheel y = shade (y - 6) := by
  rw [wheel, shade_down (y := y) (.inr h), max_eq_right (shade_nonneg _)]

/-- A whole turn changes nothing. -/
theorem wheel_add_six (hlow : -2 ≤ y) (hhigh : y ≤ 6) : wheel (y + 6) = wheel y := by
  rw [wheel_eq_shade hhigh, wheel_eq_shade_sub (by linarith), add_sub_cancel_right]

/-- Up to a sixth of a turn around its rise, a sixth behind its fall and in between. -/
theorem wheel_rise (h : |y| ≤ 1) : wheel y = max 0 y := by
  obtain ⟨hlow, hhigh⟩ := abs_le.mp h
  rw [wheel_eq_shade (by linarith)]
  rcases le_total y 0 with hdown | hup
  · rw [shade_down (.inl hdown), max_eq_left hdown]
  · rw [shade_rising hup hhigh, max_eq_right hup]

theorem wheel_top (h : |y| ≤ 1) : wheel (y + 2) = 1 := by
  obtain ⟨hlow, hhigh⟩ := abs_le.mp h
  rw [wheel_eq_shade (by linarith), shade_up (by linarith) (by linarith)]

theorem wheel_fall (h : |y| ≤ 1) : wheel (y + 4) = max 0 (-y) := by
  obtain ⟨hlow, hhigh⟩ := abs_le.mp h
  rw [wheel_eq_shade (by linarith)]
  rcases le_total y 0 with hup | hdown
  · rw [shade_falling (by linarith) (by linarith), max_eq_right (by linarith)]
    ring
  · rw [shade_down (.inr (by linarith)), max_eq_left (by linarith)]

theorem abs_wheel_sub_le (x y : Rat) : |wheel x - wheel y| ≤ |x - y| := by
  have hbehind := abs_shade_sub_le (x - 6) (y - 6)
  rw [sub_sub_sub_cancel_right] at hbehind
  exact (abs_max_sub_max_le_max _ _ _ _).trans (max_le (abs_shade_sub_le x y) hbehind)

/-- A place in whole degrees has a shade in whole sixtieths. -/
theorem exists_shade_eq (i : Int) : ∃ k : Int, shade (i / 60) = k / 60 := by
  refine ⟨max 0 (min 60 (120 - |i - 120|)), ?_⟩
  have hdist : |(i : Rat) / 60 - 2| = |(i : Rat) - 120| / 60 := by
    rw [← abs_of_pos (show (0 : Rat) < 60 by norm_num), ← abs_div,
      abs_of_pos (show (0 : Rat) < 60 by norm_num)]
    congr 1
    ring
  rw [shade, hdist]
  push_cast
  rw [← max_div_div_right (by norm_num), ← min_div_div_right (by norm_num)]
  norm_num
  ring_nf

theorem exists_wheel_eq (i : Int) : ∃ k : Int, wheel (i / 60) = k / 60 := by
  have hbehind : (i : Rat) / 60 - 6 = ((i - 360 : Int) : Rat) / 60 := by
    push_cast
    ring
  rw [wheel, hbehind]
  rcases max_choice (shade ((i : Rat) / 60)) (shade (((i - 360 : Int) : Rat) / 60)) with h | h
  · rw [h]
    exact exists_shade_eq i
  · rw [h]
    exact exists_shade_eq _

/-! ## Swings -/

/-- How far the level of a channel goes up or down, from -1 to 1. -/
def swing (s y : Rat) : Rat := s * (2 * wheel y - 1)

theorem abs_wheel_le (y : Rat) : |2 * wheel y - 1| ≤ 1 :=
  abs_le.mpr ⟨by linarith [wheel_nonneg y], by linarith [wheel_le_one y]⟩

theorem abs_swing_le (h0 : 0 ≤ s) (y : Rat) : |swing s y| ≤ s := by
  rw [swing, abs_mul, abs_of_nonneg h0]
  exact mul_le_of_le_one_right h0 (abs_wheel_le y)

theorem abs_swing_sub_le (h0 : 0 ≤ s') (h1 : s' ≤ 1) :
    |swing s x - swing s' y| ≤ |s - s'| + 2 * |x - y| := by
  have hexpand : swing s x - swing s' y
      = (s - s') * (2 * wheel x - 1) + s' * (2 * (wheel x - wheel y)) := by
    unfold swing
    ring
  have hfirst : |(s - s') * (2 * wheel x - 1)| ≤ |s - s'| := by
    rw [abs_mul]
    exact mul_le_of_le_one_right (abs_nonneg _) (abs_wheel_le x)
  have hsecond : |s' * (2 * (wheel x - wheel y))| ≤ 2 * |x - y| := by
    rw [abs_mul, abs_mul, abs_of_nonneg h0, abs_of_pos (show (0 : Rat) < 2 by norm_num)]
    have hnear := abs_wheel_sub_le x y
    have hnonneg := abs_nonneg (wheel x - wheel y)
    nlinarith
  rw [hexpand]
  exact (abs_add_le _ _).trans (add_le_add hfirst hsecond)

/-- Saturation in percent and a place in whole degrees leave few swings. -/
theorem exists_swing_eq (s i : Int) : ∃ k : Int, swing (s / 100) (i / 60) = k / 3000 := by
  obtain ⟨k, hk⟩ := exists_wheel_eq i
  refine ⟨s * (k - 30), ?_⟩
  rw [swing, hk]
  push_cast
  ring

/-! ## Levels -/

/-- The level of a channel with the swing `z` at the lightness `l`. -/
def level (z l : Rat) : Rat := l + z * min l (1 - l)

/-- The shade leads from the level of the lowest swing to that of the highest one. -/
theorem level_swing (s y l : Rat) :
    level (-s) l + (level s l - level (-s) l) * wheel y = level (swing s y) l := by
  unfold level swing
  ring

theorem level_neg (z l : Rat) : level (-z) l = 2 * l - level z l := by
  unfold level
  ring

theorem level_of_le (h : l ≤ 1 / 2) : level z l = l + z * l := by
  rw [level, min_eq_left (by linarith)]

theorem level_of_ge (h : 1 / 2 ≤ l) : level z l = l + z * (1 - l) := by
  rw [level, min_eq_right (by linarith)]

theorem level_mem (hz : |z| ≤ 1) (hl : 0 ≤ l ∧ l ≤ 1) : 0 ≤ level z l ∧ level z l ≤ 1 := by
  obtain ⟨hlow, hhigh⟩ := abs_le.mp hz
  obtain ⟨h0, h1⟩ := hl
  rcases le_total l (1 / 2) with h | h
  · rw [level_of_le h]
    constructor <;> nlinarith
  · rw [level_of_ge h]
    constructor <;> nlinarith

/-- The room for a swing changes no faster than the lightness. -/
theorem abs_room_sub_le (l l' : Rat) : |min l (1 - l) - min l' (1 - l')| ≤ |l - l'| := by
  have hrest : |(1 - l) - (1 - l')| = |l - l'| := by
    rw [sub_sub_sub_cancel_left, abs_sub_comm]
  have hroom := abs_min_sub_min_le_max l (1 - l) l' (1 - l')
  rwa [hrest, max_self] at hroom

theorem room_le (l : Rat) : min l (1 - l) ≤ 1 / 2 := by
  rcases le_total l (1 / 2) with h | h
  · exact (min_le_left _ _).trans h
  · exact (min_le_right _ _).trans (by linarith)

/-- A level is as far from the lightness as the swing in the room allows. -/
theorem abs_level_sub_self_le (z : Rat) (h0 : 0 ≤ l) (h1 : l ≤ 1) : |level z l - l| ≤ |z| / 2 := by
  rw [level, add_sub_cancel_left, abs_mul, abs_of_nonneg (le_min h0 (by linarith)), div_eq_mul_one_div]
  exact mul_le_mul_of_nonneg_left (room_le l) (abs_nonneg z)

theorem abs_level_sub_le (hz : |z| ≤ 1) (h0 : 0 ≤ l') (h1 : l' ≤ 1) :
    |level z l - level z' l'| ≤ 2 * |l - l'| + |z - z'| / 2 := by
  have hexpand : level z l - level z' l'
      = (l - l') + z * (min l (1 - l) - min l' (1 - l')) + (z - z') * min l' (1 - l') := by
    unfold level
    ring
  have hfirst : |z * (min l (1 - l) - min l' (1 - l'))| ≤ |l - l'| := by
    rw [abs_mul]
    have hroom := abs_room_sub_le l l'
    have hnonneg := abs_nonneg (min l (1 - l) - min l' (1 - l'))
    nlinarith [abs_nonneg z]
  have hsecond : |(z - z') * min l' (1 - l')| ≤ |z - z'| / 2 := by
    rw [abs_mul, abs_of_nonneg (le_min h0 (by linarith)), div_eq_mul_one_div]
    exact mul_le_mul_of_nonneg_left (room_le l') (abs_nonneg _)
  rw [hexpand]
  have hsum := abs_add_le (l - l' + z * (min l (1 - l) - min l' (1 - l')))
    ((z - z') * min l' (1 - l'))
  have hsum' := abs_add_le (l - l') (z * (min l (1 - l) - min l' (1 - l')))
  linarith

/-- A level rises with the lightness, the less so the greater the swing is. -/
theorem le_level_sub (hl : l ≤ l') : (1 - |z|) * (l' - l) ≤ level z l' - level z l := by
  have hroom := abs_room_sub_le l' l
  rw [abs_of_nonneg (show 0 ≤ l' - l by linarith)] at hroom
  have hproduct : |z * (min l' (1 - l') - min l (1 - l))| ≤ |z| * (l' - l) := by
    rw [abs_mul]
    exact mul_le_mul_of_nonneg_left hroom (abs_nonneg z)
  have hlow := (abs_le.mp hproduct).1
  unfold level
  linarith

theorem level_mono (hz : |z| ≤ 1) (hl : l ≤ l') : level z l ≤ level z l' := by
  have hrise := le_level_sub (z := z) hl
  have hnonneg : 0 ≤ (1 - |z|) * (l' - l) := mul_nonneg (by linarith) (by linarith)
  linarith

/-- **Levels rise.** At the swings that there are a level is down at its lower end, or up at its
upper one, or rises by a part of the lightness. -/
theorem level_gap {k : Int} (hz : |(k : Rat) / 3000| ≤ 1) (hl : l ≤ l') :
    level (k / 3000) l = 0 ∨ level (k / 3000) l' = 1
      ∨ (l' - l) / 3000 ≤ level (k / 3000) l' - level (k / 3000) l := by
  have hk : |k| ≤ 3000 := by
    rw [abs_div, abs_of_pos (show (0 : Rat) < 3000 by norm_num), div_le_one (by norm_num)] at hz
    exact_mod_cast hz
  rcases hk.lt_or_eq with hless | hfull
  · -- the swing leaves a part of the room free
    right; right
    have hz' : |(k : Rat) / 3000| ≤ 2999 / 3000 := by
      rw [abs_div, abs_of_pos (show (0 : Rat) < 3000 by norm_num)]
      have hless' : |(k : Rat)| ≤ 2999 := by exact_mod_cast Int.le_of_lt_add_one hless
      exact div_le_div_of_nonneg_right hless' (by norm_num)
    refine le_trans ?_ (le_level_sub hl)
    nlinarith
  · rcases (abs_eq (by norm_num)).mp hfull with rfl | rfl
    · rw [show ((3000 : Int) : Rat) / 3000 = 1 by norm_num]
      rcases le_total (1 / 2) l' with hup | hup
      · exact .inr (.inl (by rw [level_of_ge hup]; ring))
      · right; right
        rw [level_of_le hup, level_of_le (hl.trans hup)]
        linarith
    · rw [show ((-3000 : Int) : Rat) / 3000 = -1 by norm_num]
      rcases le_total l (1 / 2) with hdown | hdown
      · exact .inl (by rw [level_of_le hdown]; ring)
      · right; right
        rw [level_of_ge hdown, level_of_ge (hdown.trans hl)]
        linarith

end CssValues.Color
