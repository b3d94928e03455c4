import CssValues.Proofs.Color.Grey
import CssValues.Proofs.Color.Levels
import Mathlib.Tactic.LinearCombination

/-!
# The coordinates of a colour

The exact hue, saturation and lightness of a colour have its channels as their levels
(`Color.level_coordinates`). The computed ones are these, rounded to whole degrees and percents
(`Color.toHsl_isHslOf`). They are an angle and two percentages, and no divisor on the way is zero
(`Color.toHsl_in_range`). The way back ends a few levels from the colour (`Color.ofHsl_close`).
-/

namespace CssValues

open Number

namespace Channel

variable {a b : Channel} {x y : Number}

/-! ## Shares are ordered as channels are -/

theorem toFraction_near (a : Channel) : Yields a.toFraction (·.Near 0 (a.val / 255) 1) := by
  have hnear := Color.quotient_near (i := a.val) (j := 255) (by omega) (by decide)
  rwa [Int.cast_natCast] at hnear

theorem near_of_toFraction (hx : a.toFraction = .ok x) : x.Near 0 (a.val / 255) 1 := by
  obtain ⟨_, hx', hnear⟩ := a.toFraction_near
  exact Except.ok.inj (hx.symm.trans hx') ▸ hnear

/-- Different channels are further apart than the errors of their shares. -/
theorem le_of_share_sub_le (h : (a.val : Rat) / 255 - b.val / 255 ≤ (1 + 1 : Nat) * tick 0) :
    a ≤ b := by
  by_contra hlt
  have hgap : (b.val : Rat) + 1 ≤ a.val := by exact_mod_cast not_le.mp hlt
  have htick : ((1 + 1 : Nat) : Rat) * tick 0 < 1 / 255 := by norm_num [tick]
  rw [← sub_div] at h
  have hshare : (1 : Rat) / 255 ≤ ((a.val : Rat) - b.val) / 255 :=
    div_le_div_of_nonneg_right (by linarith) (by norm_num)
  linarith

theorem lt_toFraction (hx : a.toFraction = .ok x) (hy : b.toFraction = .ok y) :
    x.lt y = true ↔ a < b := by
  have hxnear := near_of_toFraction hx
  have hynear := near_of_toFraction hy
  constructor
  · intro hlt
    refine lt_of_le_of_ne (le_of_share_sub_le (hxnear.sub_le_of_lt hynear hlt)) ?_
    rintro rfl
    obtain ⟨-, -, -, v, hv, -⟩ := hxnear
    obtain rfl := Except.ok.inj (hx.symm.trans hy)
    exact ((lt_iff hv hv).mp hlt).false
  · intro hlt
    by_contra hnot
    exact hlt.not_ge (le_of_share_sub_le (hxnear.sub_le_of_not_lt hynear hnot))

theorem max_toFraction (hx : a.toFraction = .ok x) (hy : b.toFraction = .ok y) :
    (Max.max a b).toFraction = .ok (x.max y) := by
  by_cases hlt : a < b
  · rw [max_eq_right hlt.le, max_of_lt ((lt_toFraction hx hy).mpr hlt), hy]
  · rw [max_eq_left (not_lt.mp hlt), max_of_not_lt (Bool.eq_false_iff.mpr fun h =>
      hlt ((lt_toFraction hx hy).mp h)), hx]

theorem min_toFraction (hx : a.toFraction = .ok x) (hy : b.toFraction = .ok y) :
    (Min.min a b).toFraction = .ok (x.min y) := by
  by_cases hlt : b < a
  · rw [min_eq_right hlt.le, show x.min y = y from if_pos ((lt_toFraction hy hx).mpr hlt), hy]
  · rw [min_eq_left (not_lt.mp hlt), show x.min y = x from if_neg fun h =>
      hlt ((lt_toFraction hy hx).mp h), hx]

theorem equals_toFraction (hx : a.toFraction = .ok x) (hy : b.toFraction = .ok y) :
    x.equals y = true ↔ a = b := by
  obtain ⟨-, -, -, v, hv, -⟩ := near_of_toFraction hx
  obtain ⟨-, -, -, w, hw, -⟩ := near_of_toFraction hy
  have hxy := (lt_toFraction hx hy).symm.trans (lt_iff hv hw)
  have hyx := (lt_toFraction hy hx).symm.trans (lt_iff hw hv)
  rw [equals_iff hv hw]
  constructor
  · rintro rfl
    exact le_antisymm (not_lt.mp fun h => (hyx.mp h).false) (not_lt.mp fun h => (hxy.mp h).false)
  · rintro rfl
    exact le_antisymm (not_lt.mp fun h => (hyx.mpr h).false) (not_lt.mp fun h => (hxy.mpr h).false)

end Channel

namespace Color

variable {c : Color}

/-! ## Exact coordinates -/

/-- The highest channel. -/
def high (c : Color) : Channel := max (max c.red c.green) c.blue

/-- The lowest channel. -/
def low (c : Color) : Channel := min (min c.red c.green) c.blue

/-- The difference of the highest channel and the lowest one. -/
def chroma (c : Color) : Rat := c.high.val / 255 - c.low.val / 255

def lightness (c : Color) : Rat := (c.high.val / 255 + c.low.val / 255) / 2

def saturation (c : Color) : Rat := c.chroma / (1 - |2 * c.lightness - 1|)

/-- The difference of two levels as a share of the difference of the highest level and the lowest one. -/
def lead (c : Color) (a b : Channel) : Rat := (a.val / 255 - b.val / 255) / c.chroma

/-- The place on the colour circle in sixths of a turn: how far the highest channel has come from
where it was alone. -/
def place (c : Color) : Rat :=
  if c.high = c.red then c.lead c.green c.blue + if c.green < c.blue then 6 else 0
  else if c.high = c.green then c.lead c.blue c.red + 2
  else c.lead c.red c.green + 4

theorem low_le_high (c : Color) : c.low ≤ c.high :=
  (min_le_right _ c.blue).trans (le_max_right _ c.blue)

theorem red_mem (c : Color) : c.low ≤ c.red ∧ c.red ≤ c.high :=
  ⟨min_le_of_left_le (min_le_left _ _), le_max_of_le_left (le_max_left _ _)⟩

theorem green_mem (c : Color) : c.low ≤ c.green ∧ c.green ≤ c.high :=
  ⟨min_le_of_left_le (min_le_right _ _), le_max_of_le_left (le_max_right _ _)⟩

theorem blue_mem (c : Color) : c.low ≤ c.blue ∧ c.blue ≤ c.high :=
  ⟨min_le_right _ _, le_max_right _ _⟩

theorem low_share_le (c : Color) : 0 ≤ (c.low.val : Rat) / 255
    ∧ (c.low.val : Rat) / 255 ≤ c.high.val / 255 := by
  have hle : (c.low.val : Rat) ≤ c.high.val := by exact_mod_cast low_le_high c
  exact ⟨by positivity, by linarith⟩

/-- The room around the lightness is the distance to the nearer end. -/
theorem one_sub_distance (l : Rat) : 1 - |2 * l - 1| = 2 * min l (1 - l) := by
  rcases le_total l (1 / 2) with h | h
  · rw [abs_of_nonpos (by linarith), min_eq_left (by linarith)]
    ring
  · rw [abs_of_nonneg (by linarith), min_eq_right (by linarith)]
    ring

theorem chroma_nonneg (c : Color) : 0 ≤ c.chroma := by
  unfold chroma
  linarith [c.low_share_le.2]

/-- The room is as wide as the difference of the levels, at least. -/
theorem chroma_le_room (c : Color) : c.chroma ≤ 1 - |2 * c.lightness - 1| := by
  obtain ⟨h0, h1⟩ := c.high.share_mem
  obtain ⟨l0, l1⟩ := c.low_share_le
  rw [one_sub_distance]
  unfold chroma lightness
  rcases min_choice ((c.high.val / 255 + c.low.val / 255 : Rat) / 2)
    (1 - (c.high.val / 255 + c.low.val / 255 : Rat) / 2) with h | h
  · rw [h]
    linarith
  · rw [h]
    linarith

theorem chroma_pos (h : c.low < c.high) : 1 / 255 ≤ c.chroma := by
  have hgap : (c.low.val : Rat) + 1 ≤ c.high.val := by exact_mod_cast h
  unfold chroma
  linarith

/-- Saturation and lightness give back the difference of the levels and the lowest level. -/
theorem level_of_wheel (h : c.low < c.high) (y : Rat) :
    level (swing c.saturation y) c.lightness = c.low.val / 255 + c.chroma * wheel y := by
  have hroom : 0 < 1 - |2 * c.lightness - 1| :=
    lt_of_lt_of_le (by linarith [chroma_pos h]) c.chroma_le_room
  have hswing : c.saturation * min c.lightness (1 - c.lightness) = c.chroma / 2 := by
    unfold saturation
    rw [one_sub_distance] at hroom ⊢
    have hne : min c.lightness (1 - c.lightness) ≠ 0 := by linarith
    field_simp
  have hlow : c.lightness - c.chroma / 2 = c.low.val / 255 := by
    unfold lightness chroma
    ring
  unfold level swing
  linear_combination (2 * wheel y - 1) * hswing + hlow

section

variable {a b : Channel}

/-- The two other channels than the highest one differ by the chroma at most. -/
theorem abs_lead_le (h : c.low < c.high) (ha : c.low ≤ a ∧ a ≤ c.high) (hb : c.low ≤ b ∧ b ≤ c.high) :
    |c.lead a b| ≤ 1 := by
  have hchroma : 0 < c.chroma := by linarith [chroma_pos h]
  have ha0 : (c.low.val : Rat) ≤ a.val := by exact_mod_cast ha.1
  have ha1 : (a.val : Rat) ≤ c.high.val := by exact_mod_cast ha.2
  have hb0 : (c.low.val : Rat) ≤ b.val := by exact_mod_cast hb.1
  have hb1 : (b.val : Rat) ≤ c.high.val := by exact_mod_cast hb.2
  rw [lead, abs_div, abs_of_pos hchroma, div_le_one hchroma]
  unfold chroma
  exact abs_le.mpr ⟨by linarith, by linarith⟩

/-- One of them is the lowest, and the other one is ahead of it by the lead. -/
theorem low_add_lead (h : c.low < c.high) (hlow : c.low = min a b) :
    (c.low.val : Rat) / 255 + c.chroma * max 0 (c.lead a b) = a.val / 255 := by
  have hchroma : 0 < c.chroma := by linarith [chroma_pos h]
  rw [mul_max_of_nonneg _ _ hchroma.le, mul_zero, lead, mul_div_cancel₀ _ hchroma.ne', hlow]
  rcases le_total a b with hab | hab
  · have hab' : (a.val : Rat) ≤ b.val := by exact_mod_cast hab
    rw [min_eq_left hab, max_eq_left (by linarith), add_zero]
  · have hab' : (b.val : Rat) ≤ a.val := by exact_mod_cast hab
    rw [min_eq_right hab, max_eq_right (by linarith)]
    ring

theorem lead_nonneg (c : Color) (hab : b ≤ a) : 0 ≤ c.lead a b := by
  have hab' : (b.val : Rat) ≤ a.val := by exact_mod_cast hab
  exact div_nonneg (by linarith) c.chroma_nonneg

theorem lead_neg (c : Color) (a b : Channel) : -c.lead a b = c.lead b a := by
  unfold lead
  ring

end

theorem level_coordinates_of_lt (h : c.low < c.high) :
    level (swing c.saturation (c.place + 2)) c.lightness = c.red.val / 255
    ∧ level (swing c.saturation c.place) c.lightness = c.green.val / 255
    ∧ level (swing c.saturation (c.place - 2)) c.lightness = c.blue.val / 255 := by
  have htop : (c.low.val : Rat) / 255 + c.chroma * 1 = c.high.val / 255 := by
    unfold chroma
    ring
  -- the two other channels, by their lead
  have hahead {a b : Channel} (hlow : c.low = min a b) :
      (c.low.val : Rat) / 255 + c.chroma * max 0 (c.lead a b) = a.val / 255
      ∧ (c.low.val : Rat) / 255 + c.chroma * max 0 (-c.lead a b) = b.val / 255 :=
    ⟨low_add_lead h hlow, lead_neg c a b ▸ low_add_lead h (hlow.trans (min_comm a b))⟩
  simp only [level_of_wheel h]
  unfold place
  split
  · next hred =>
    have he := abs_lead_le h c.green_mem c.blue_mem
    have hlow : c.low = min c.green c.blue := by
      rw [low, min_eq_right (c.green_mem.2.trans hred.le)]
    obtain ⟨hgreen, hblue⟩ := hahead hlow
    rw [hred] at htop
    obtain ⟨hlead0, hlead1⟩ := abs_le.mp he
    split
    · rw [show c.lead c.green c.blue + 6 + 2 = c.lead c.green c.blue + 2 + 6 by ring,
        wheel_add_six (by linarith) (by linarith), wheel_top he,
        wheel_add_six (by linarith) (by linarith), wheel_rise he,
        show c.lead c.green c.blue + 6 - 2 = c.lead c.green c.blue + 4 by ring, wheel_fall he]
      exact ⟨htop, hgreen, hblue⟩
    · next hge =>
      have hnonneg := c.lead_nonneg (not_lt.mp hge)
      rw [max_eq_left (by linarith)] at hblue
      rw [add_zero, wheel_top he, wheel_rise he, wheel_eq_shade (y := c.lead c.green c.blue - 2)
        (by linarith), shade_down (.inl (by linarith))]
      exact ⟨htop, hgreen, hblue⟩
  split
  · next hgreen =>
    have he := abs_lead_le h c.blue_mem c.red_mem
    have hlow : c.low = min c.blue c.red := by
      rw [low, min_eq_left (c.red_mem.2.trans hgreen.le), min_comm]
    obtain ⟨hblue, hred⟩ := hahead hlow
    rw [hgreen] at htop
    rw [show c.lead c.blue c.red + 2 + 2 = c.lead c.blue c.red + 4 by ring, wheel_fall he,
      wheel_top he, add_sub_cancel_right, wheel_rise he]
    exact ⟨hred, htop, hblue⟩
  · next hred hgreen =>
    have he := abs_lead_le h c.red_mem c.green_mem
    have hblue : c.high = c.blue := by
      rcases max_choice (max c.red c.green) c.blue with hmax | hmax
      · rcases max_choice c.red c.green with hmax' | hmax'
        · exact absurd (hmax.trans hmax') hred
        · exact absurd (hmax.trans hmax') hgreen
      · exact hmax
    have hlow : c.low = min c.red c.green :=
      min_eq_left ((min_le_left _ _).trans (c.red_mem.2.trans hblue.le))
    obtain ⟨hred, hgreen⟩ := hahead hlow
    rw [hblue] at htop
    obtain ⟨hlead0, hlead1⟩ := abs_le.mp he
    rw [show c.lead c.red c.green + 4 + 2 = c.lead c.red c.green + 6 by ring,
      wheel_add_six (by linarith) (by linarith), wheel_rise he, wheel_fall he,
      show c.lead c.red c.green + 4 - 2 = c.lead c.red c.green + 2 by ring, wheel_top he]
    exact ⟨hred, hgreen, htop⟩

/-- A grey has neither place nor saturation. -/
theorem coordinates_of_grey (h : c.low = c.high) : c.place = 0 ∧ c.saturation = 0 := by
  have hchroma : c.chroma = 0 := by
    unfold chroma
    rw [h, sub_self]
  have hred : c.high = c.red := le_antisymm (h ▸ c.red_mem.1) c.red_mem.2
  have hblue : ¬c.green < c.blue := (c.blue_mem.2.trans (h ▸ c.green_mem.1)).not_gt
  unfold place saturation lead
  rw [if_pos hred, if_neg hblue, hchroma]
  simp

/-- **Exact coordinates.** The levels of its exact coordinates are the channels of the colour. -/
theorem level_coordinates (c : Color) :
    level (swing c.saturation (c.place + 2)) c.lightness = c.red.val / 255
    ∧ level (swing c.saturation c.place) c.lightness = c.green.val / 255
    ∧ level (swing c.saturation (c.place - 2)) c.lightness = c.blue.val / 255 := by
  rcases c.low_le_high.lt_or_eq with hlt | hgrey
  · exact level_coordinates_of_lt hlt
  · obtain ⟨-, hsaturation⟩ := coordinates_of_grey hgrey
    have hlightness : c.lightness = c.high.val / 255 := by
      rw [lightness, hgrey]
      ring
    have hflat (y : Rat) : level (swing c.saturation y) c.lightness = c.high.val / 255 := by
      rw [hsaturation, hlightness]
      unfold level swing
      ring
    have hsame {a : Channel} (ha : c.low ≤ a ∧ a ≤ c.high) : c.high = a :=
      le_antisymm (hgrey ▸ ha.1) ha.2
    rw [hflat, hflat, hflat, ← hsame c.red_mem, ← hsame c.green_mem, ← hsame c.blue_mem]
    exact ⟨rfl, rfl, rfl⟩

/-! ## Computed coordinates -/

theorem place_mem (h : c.low < c.high) : 0 ≤ c.place ∧ c.place ≤ 6 := by
  unfold place
  split
  · obtain ⟨hlow, hhigh⟩ := abs_le.mp (abs_lead_le h c.green_mem c.blue_mem)
    split
    · next hlt =>
      have hneg := c.lead_nonneg hlt.le
      rw [← lead_neg] at hneg
      constructor <;> linarith
    · next hge =>
      have hnonneg := c.lead_nonneg (not_lt.mp hge)
      constructor <;> linarith
  split
  · obtain ⟨hlow, hhigh⟩ := abs_le.mp (abs_lead_le h c.blue_mem c.red_mem)
    constructor <;> linarith
  · obtain ⟨hlow, hhigh⟩ := abs_le.mp (abs_lead_le h c.red_mem c.green_mem)
    constructor <;> linarith

section

variable {a b : Channel} {x y k d : Number} {K : Rat}

/-- A lead, moved by sixths of a turn. -/
theorem sextant_near (h : c.low < c.high) (hd : d.Near 0 c.chroma 3)
    (ha : c.low ≤ a ∧ a ≤ c.high) (hb : c.low ≤ b ∧ b ≤ c.high) (hx : a.toFraction = .ok x)
    (hy : b.toFraction = .ok y) (hk : k.Near 0 K 0) (hK : 0 ≤ c.lead a b + K ∧ c.lead a b + K ≤ 6) :
    Yields (do
      let n ← x.sub y
      let q ← n.div d
      let sum ← q.add k
      sum.div 6) (·.Near 0 ((c.lead a b + K) / 6) 6125) := by
  have he := abs_lead_le h ha hb
  have hchroma := chroma_pos h
  have hsix : (6 : Number).Near 0 6 0 := near_int 6 (by decide)
  have hdiff : |(a.val : Rat) / 255 - b.val / 255| ≤ 6 * 2 ^ 0 := by
    obtain ⟨ha0, ha1⟩ := a.share_mem
    obtain ⟨hb0, hb1⟩ := b.share_mem
    exact abs_le_six (by linarith) (by linarith)
  refine ((Channel.near_of_toFraction hx).sub (Channel.near_of_toFraction hy) hdiff
    (by norm_num)).bind fun n hn => ?_
  refine (hn.div hd 1 255 ?_ ?_ (by norm_num) (by norm_num)).bind fun q hq => ?_
  · rw [abs_of_pos (by linarith)]
    push_cast
    linarith
  · rw [Nat.cast_one]
    exact he
  change q.Near 0 (c.lead a b) _ at hq
  refine (hq.add hk (abs_le_six (by linarith [hK.1]) hK.2) (by norm_num)).bind fun sum hsum => ?_
  refine (hsum.div hsix 1 1 ?_ ?_ (by norm_num) (by norm_num)).mono
    fun _ h => h.mono (by norm_num) (by norm_num)
  · norm_num
  · rw [Nat.cast_one, abs_of_nonneg (div_nonneg hK.1 (by norm_num)), div_le_one (by norm_num)]
    exact hK.2

end

/-- The highest channel is that of the three which none is above. -/
theorem hueFraction_near {r g b d : Number} (h : c.low < c.high) (hd : d.Near 0 c.chroma 3)
    (hr : c.red.toFraction = .ok r) (hg : c.green.toFraction = .ok g)
    (hb : c.blue.toFraction = .ok b) {n : Number} (hn : c.high.toFraction = .ok n) :
    Yields (hueFraction r g b n d) (·.Near 0 (c.place / 6) 6125) := by
  have hplace := place_mem h
  unfold hueFraction
  unfold place at hplace ⊢
  simp only [Channel.equals_toFraction hn hr, Channel.equals_toFraction hn hg,
    Channel.lt_toFraction hg hb]
  split
  · next hred =>
    rw [if_pos hred] at hplace
    refine sextant_near h hd c.green_mem c.blue_mem hg hb ?_ hplace
    split
    · exact near_int 6 (by decide)
    · exact near_int 0 (by decide)
  next hred =>
  rw [if_neg hred] at hplace
  split
  · next hgreen =>
    rw [if_pos hgreen] at hplace
    exact sextant_near h hd c.blue_mem c.red_mem hb hr (near_int 2 (by decide)) hplace
  · next hgreen =>
    rw [if_neg hgreen] at hplace
    exact sextant_near h hd c.red_mem c.green_mem hr hg (near_int 4 (by decide)) hplace

/-- The error of a rounded coordinate beyond the rounding itself. -/
def slack : Rat := 1 / 2 ^ 28

/-- Hue, saturation and lightness are rounded from the exact coordinates. -/
structure IsHslOf (c : Color) (hsl : Hsl) : Prop where
  hue : |(hsl.hue : Rat) - c.place * 60| ≤ 1 / 2 + slack
  saturation : |(hsl.saturation : Rat) - c.saturation * 100| ≤ 1 / 2 + slack
  lightness : |(hsl.lightness : Rat) - c.lightness * 100| ≤ 1 / 2 + slack

theorem round_near {n : Number} {A : Rat} {m k : Nat} (hn : n.Near 0 A m) (hA : 0 ≤ A ∧ A ≤ 1)
    (hm : m ≤ 10900) (hk : k ≤ 384) : Yields (n.mul (int k)) fun x =>
      Yields x.round fun i => |(i : Rat) - A * k| ≤ 1 / 2 + slack := by
  have hsize : |A| ≤ 1 := by
    rw [abs_of_nonneg hA.1]
    exact hA.2
  refine (hn.scale_up hk hsize (by omega)).mono fun x hx => ?_
  obtain ⟨-, -, -, v, hv, herror⟩ := hx
  refine ⟨nearestEven v, round_of_isAt hv, ?_⟩
  have hcount : ((6 * m + 1 : Nat) : Rat) ≤ 65536 := by exact_mod_cast (by omega : 6 * m + 1 ≤ 65536)
  have hslack : ((6 * m + 1 : Nat) : Rat) * tick 6 ≤ slack := by
    refine (mul_le_mul_of_nonneg_right hcount (tick_pos 6).le).trans_eq ?_
    norm_num [tick, slack]
  have hround := abs_nearestEven_sub_le v
  have hsum := abs_sub_le (nearestEven v : Rat) v (A * k)
  linarith

theorem lightness_mem (c : Color) : 0 ≤ c.lightness ∧ c.lightness ≤ 1 := by
  obtain ⟨h0, h1⟩ := c.high.share_mem
  obtain ⟨l0, l1⟩ := c.low_share_le
  unfold lightness
  constructor <;> linarith

theorem saturation_mem (c : Color) : 0 ≤ c.saturation ∧ c.saturation ≤ 1 :=
  ⟨div_nonneg c.chroma_nonneg (c.chroma_nonneg.trans c.chroma_le_room),
    div_le_one_of_le₀ c.chroma_le_room (c.chroma_nonneg.trans c.chroma_le_room)⟩

/-- The difference of the highest channel and the lowest one is computed as zero just for greys. -/
theorem equals_zero_iff {x y d : Number} (hx : c.high.toFraction = .ok x)
    (hy : c.low.toFraction = .ok y) (hd : x.sub y = .ok d) (hdelta : d.Near 0 c.chroma 3) :
    d.equals 0 = true ↔ c.low = c.high := by
  constructor
  · intro hzero
    by_contra hne
    have hgap := chroma_pos (lt_of_le_of_ne c.low_le_high hne)
    refine absurd hzero (Bool.eq_false_iff.mp (hdelta.equals_zero_eq_false ?_))
    rw [abs_of_nonneg c.chroma_nonneg]
    refine lt_of_lt_of_le ?_ hgap
    norm_num [tick]
  · intro hgrey
    rw [hgrey] at hy
    obtain rfl := Except.ok.inj (hx.symm.trans hy)
    obtain ⟨_, hx', ⟨z, rfl⟩, -⟩ := toFraction_yields c.high
    obtain rfl := Except.ok.inj (hx.symm.trans hx')
    obtain rfl : Number.double (z.sub z) = d := Except.ok.inj hd
    obtain ⟨-, -, -, v, hv, -⟩ := Channel.near_of_toFraction hx
    exact equals_sub_self (Binary64.exists_isAt_iff.mp ⟨v, hv⟩)

/-- The numbers that the coordinates of a colour are computed from: the shares of the channels, the
highest one, its difference from the lowest one, and the lightness. -/
structure Shares where
  red : Number
  green : Number
  blue : Number
  high : Number
  delta : Number
  lightness : Number

def shares (c : Color) : Except Fault Shares := do
  let red ← c.red.toFraction
  let green ← c.green.toFraction
  let blue ← c.blue.toFraction
  let high := (red.max green).max blue
  let low := (red.min green).min blue
  let delta ← high.sub low
  let lightness ← (← high.add low).div 2
  return { red, green, blue, high, delta, lightness }

namespace Shares

/-- The room around the lightness, which the difference is divided by. -/
def room (s : Shares) : Except Fault Number := do
  (1 : Number).sub (← (← (2 : Number).mul s.lightness).sub 1).abs

def toHsl (s : Shares) : Except Fault Hsl := do
  if s.delta.equals 0 then return ⟨0, 0, ← (← s.lightness.mul 100).round⟩
  else
    let saturation ← s.delta.div (← s.room)
    let hue ← hueFraction s.red s.green s.blue s.high s.delta
    return ⟨← (← hue.mul 360).round, ← (← saturation.mul 100).round,
      ← (← s.lightness.mul 100).round⟩

/-- The shares are those of the channels, and the other numbers are near the exact ones. The difference
is zero just for greys. -/
structure IsOf (s : Shares) (c : Color) : Prop where
  red : c.red.toFraction = .ok s.red
  green : c.green.toFraction = .ok s.green
  blue : c.blue.toFraction = .ok s.blue
  high : c.high.toFraction = .ok s.high
  delta : s.delta.Near 0 c.chroma 3
  lightness : s.lightness.Near 0 c.lightness 7
  equals_zero_iff : s.delta.equals 0 = true ↔ c.low = c.high

end Shares

theorem toHsl_eq (c : Color) : c.toHsl = c.shares >>= Shares.toHsl := by
  unfold toHsl shares Shares.toHsl Shares.room
  simp only [bind_assoc, pure_bind]

theorem shares_isOf (c : Color) : Yields c.shares (·.IsOf c) := by
  obtain ⟨r, hr, -⟩ := c.red.toFraction_near
  obtain ⟨g, hg, -⟩ := c.green.toFraction_near
  obtain ⟨b, hb, -⟩ := c.blue.toFraction_near
  have hhigh : c.high.toFraction = .ok ((r.max g).max b) :=
    Channel.max_toFraction (Channel.max_toFraction hr hg) hb
  have hlow : c.low.toFraction = .ok ((r.min g).min b) :=
    Channel.min_toFraction (Channel.min_toFraction hr hg) hb
  have hhighnear := Channel.near_of_toFraction hhigh
  have hlownear := Channel.near_of_toFraction hlow
  obtain ⟨H0, H1⟩ := c.high.share_mem
  obtain ⟨L0, L1⟩ := c.low_share_le
  obtain ⟨l0, l1⟩ := c.lightness_mem
  obtain ⟨d, hd, hdelta⟩ := hhighnear.sub hlownear (abs_le_six (by linarith) (by linarith))
    (by norm_num)
  obtain ⟨sum, hsum, hsumnear⟩ := hhighnear.add hlownear (abs_le_six (by linarith) (by linarith))
    (by norm_num)
  obtain ⟨l, hl, hlightness⟩ : Yields (sum.div 2) (·.Near 0 c.lightness 7) := by
    refine hsumnear.div (near_int 2 (by decide)) 1 1 (by norm_num) ?_ (by norm_num) (by norm_num)
    rw [Nat.cast_one]
    exact abs_le.mpr ⟨by linarith, by linarith⟩
  have hshares : c.shares = .ok ⟨r, g, b, (r.max g).max b, d, l⟩ := by
    simp only [shares, hr, hg, hb, hd, hsum, hl, bind, Except.bind, pure, Except.pure]
  exact ⟨_, hshares, hr, hg, hb, hhigh, hdelta, hlightness, equals_zero_iff hhigh hlow hd hdelta⟩

namespace Shares.IsOf

variable {s : Shares}

theorem room_near (h : s.IsOf c) : Yields s.room (·.Near 0 (1 - |2 * c.lightness - 1|) 18) := by
  have htwo : (2 : Number).Near 0 2 0 := near_int 2 (by decide)
  have hone : (1 : Number).Near 0 1 0 := near_int 1 (by decide)
  obtain ⟨l0, l1⟩ := c.lightness_mem
  have hroom := c.chroma_nonneg.trans c.chroma_le_room
  have hdist := abs_nonneg (2 * c.lightness - 1)
  unfold room
  refine (htwo.mul h.lightness 2 1 (by norm_num) ?_ (by norm_num) (by norm_num)).bind
    fun twice htwice => ?_
  · rw [Nat.cast_one, abs_of_nonneg l0]
    exact l1
  refine (htwice.sub hone (abs_le_six (by linarith) (by linarith)) (by norm_num)).bind
    fun offset hoffset => ?_
  exact hone.sub hoffset.abs (abs_le_six (by linarith) (by linarith)) (by norm_num)

theorem toHsl_isHslOf (h : s.IsOf c) : Yields s.toHsl c.IsHslOf := by
  obtain ⟨l0, l1⟩ := c.lightness_mem
  have hround := round_near (k := 100) h.lightness c.lightness_mem (by norm_num) (by norm_num)
  unfold toHsl
  split
  · next hzero =>
    obtain ⟨hplace, hsaturation⟩ := coordinates_of_grey (h.equals_zero_iff.mp hzero)
    refine hround.bind fun x hx => hx.bind fun i hi => .ok ⟨?_, ?_, by exact_mod_cast hi⟩
    · rw [hplace]
      norm_num [slack]
    · rw [hsaturation]
      norm_num [slack]
  · next hdiffer =>
    have hlt := lt_of_le_of_ne c.low_le_high (mt h.equals_zero_iff.mpr hdiffer)
    have hroom := c.chroma_le_room
    have hchroma := chroma_pos hlt
    refine h.room_near.bind fun rest hrest => ?_
    refine (h.delta.div hrest 1 255 ?_ ?_ (by norm_num) (by norm_num)).bind fun s' hs => ?_
    · rw [abs_of_nonneg (by linarith)]
      push_cast
      linarith
    · change |c.saturation| ≤ _
      rw [Nat.cast_one, abs_of_nonneg c.saturation_mem.1]
      exact c.saturation_mem.2
    change s'.Near 0 c.saturation _ at hs
    refine (hueFraction_near hlt h.delta h.red h.green h.blue h.high).bind fun t ht => ?_
    have hplace := place_mem hlt
    refine (round_near (k := 360) ht ⟨by linarith, by linarith⟩ (by norm_num) (by norm_num)).bind
      fun x hx => hx.bind fun i hi => ?_
    have hhue : |(i : Rat) - c.place * 60| ≤ 1 / 2 + slack := by
      rwa [Nat.cast_ofNat, show c.place / 6 * 360 = c.place * 60 by ring] at hi
    refine (round_near (k := 100) hs c.saturation_mem (by norm_num) (by norm_num)).bind
      fun x hx => hx.bind fun j hj => ?_
    exact hround.bind fun x hx => hx.bind fun k hk =>
      .ok ⟨hhue, by exact_mod_cast hj, by exact_mod_cast hk⟩

end Shares.IsOf

/-- **Coordinates.** The computed coordinates of a colour are its exact ones, rounded. -/
theorem toHsl_isHslOf (c : Color) : Yields c.toHsl c.IsHslOf := by
  rw [toHsl_eq]
  exact (shares_isOf c).bind fun s hs => hs.toHsl_isHslOf

/-! ## There and back -/

namespace IsHslOf

variable {hsl : Hsl}

/-- What is rounded from a number between two integers lies between them. -/
theorem mem_of_rounded {k n : Int} {X : Rat} (h : |(k : Rat) - X| ≤ 1 / 2 + slack) (h0 : 0 ≤ X)
    (hn : X ≤ n) : 0 ≤ k ∧ k ≤ n := by
  obtain ⟨hlow, hhigh⟩ := abs_le.mp h
  have hslack : slack < 1 / 2 := by norm_num [slack]
  constructor
  · have hlt : (-1 : Rat) < k := by linarith
    have hlt' : (-1 : Int) < k := by exact_mod_cast hlt
    omega
  · have hlt : (k : Rat) < n + 1 := by linarith
    exact Int.lt_add_one_iff.mp (by exact_mod_cast hlt)

/-- **Range.** Hue is an angle of a turn, saturation and lightness are percentages. -/
theorem mem (h : c.IsHslOf hsl) : (0 ≤ hsl.hue ∧ hsl.hue ≤ 360)
    ∧ (0 ≤ hsl.saturation ∧ hsl.saturation ≤ 100) ∧ (0 ≤ hsl.lightness ∧ hsl.lightness ≤ 100) := by
  obtain ⟨hhue, hsaturation, hlightness⟩ := h
  have hplace : 0 ≤ c.place ∧ c.place ≤ 6 := by
    rcases c.low_le_high.lt_or_eq with hlt | hgrey
    · exact place_mem hlt
    · rw [(coordinates_of_grey hgrey).1]
      norm_num
  obtain ⟨s0, s1⟩ := c.saturation_mem
  obtain ⟨l0, l1⟩ := c.lightness_mem
  refine ⟨mem_of_rounded hhue (by linarith) ?_, mem_of_rounded hsaturation (by linarith) ?_,
    mem_of_rounded hlightness (by linarith) ?_⟩
  all_goals
    push_cast
    linarith

end IsHslOf

theorem low_eq_high_iff : c.low = c.high ↔ c.IsGrey := by
  constructor
  · intro h
    have hsame {a : Channel} (ha : c.low ≤ a ∧ a ≤ c.high) : a = c.high :=
      le_antisymm ha.2 (h ▸ ha.1)
    rw [IsGrey, hsame c.red_mem, hsame c.green_mem, hsame c.blue_mem]
    exact ⟨rfl, rfl⟩
  · intro h
    obtain ⟨k, rfl⟩ := isGrey_iff.mp h
    simp only [low, high, min_self, max_self]

/-- A percentage is not changed when it is kept within the percentages. -/
theorem percentFraction_of_mem {k : Int} (h : 0 ≤ k ∧ k ≤ 100) :
    percentFraction (.int k) = (Number.int k).div 100 := by
  have hmin : Number.min 100 (.int k) = .int k := (min_int 100 k).trans (by rw [min_eq_right h.2])
  have hmax : Number.max 0 (.int k) = .int k := (max_int 0 k).trans (by rw [max_eq_right h.1])
  rw [percentFraction, hmin, hmax]

/-- **Range.** Every colour has coordinates, an angle and two percentages: nothing is divided by zero,
for neither the difference of the channels nor the room around the lightness is zero unless the colour
is a grey, which has no hue and no saturation. On the way back the percentages are taken as they are. -/
theorem toHsl_in_range (c : Color) :
    (∃ s, c.shares = .ok s ∧ c.toHsl = s.toHsl
      ∧ (¬c.IsGrey → s.delta.equals 0 = false ∧ Yields s.room (·.equals 0 = false)))
    ∧ Yields c.toHsl fun hsl =>
      (0 ≤ hsl.hue ∧ hsl.hue ≤ 360)
      ∧ (0 ≤ hsl.saturation ∧ hsl.saturation ≤ 100)
      ∧ (0 ≤ hsl.lightness ∧ hsl.lightness ≤ 100)
      ∧ (c.IsGrey → hsl.hue = 0 ∧ hsl.saturation = 0)
      ∧ percentFraction (.int hsl.saturation) = (Number.int hsl.saturation).div 100
      ∧ percentFraction (.int hsl.lightness) = (Number.int hsl.lightness).div 100 := by
  constructor
  · obtain ⟨s, hs, hof⟩ := shares_isOf c
    have hhsl : c.toHsl = s.toHsl := by
      rw [toHsl_eq, hs]
      rfl
    refine ⟨s, hs, hhsl, fun hcolor => ?_⟩
    have hne : c.low ≠ c.high := mt low_eq_high_iff.mp hcolor
    have hchroma := chroma_pos (lt_of_le_of_ne c.low_le_high hne)
    have hroom := c.chroma_le_room
    refine ⟨Bool.eq_false_iff.mpr (mt hof.equals_zero_iff.mp hne), hof.room_near.mono fun room h => ?_⟩
    apply h.equals_zero_eq_false
    rw [abs_of_pos (by linarith)]
    refine lt_of_lt_of_le ?_ (hchroma.trans hroom)
    norm_num [tick]
  · obtain ⟨hsl, hhsl, hof⟩ := toHsl_isHslOf c
    obtain ⟨hhue, hsaturation, hlightness⟩ := hof.mem
    refine ⟨hsl, hhsl, hhue, hsaturation, hlightness, fun hgrey => ?_,
      percentFraction_of_mem hsaturation, percentFraction_of_mem hlightness⟩
    obtain ⟨hsl', hhsl', hhue', hsaturation', -⟩ := toHsl_of_isGrey hgrey
    obtain rfl := Except.ok.inj (hhsl.symm.trans hhsl')
    exact ⟨hhue', hsaturation'⟩

/-- A colour next to black, and a grey. -/
theorem toHsl_in_range_extremes :
    ¬(Color.ofLevels 1 0 0).IsGrey ∧ Color.white.IsGrey
    ∧ (∃ s, (Color.ofLevels 1 0 0).shares = .ok s ∧ s.delta.equals 0 = false
      ∧ Yields s.room (·.equals 0 = false))
    ∧ Yields Color.white.toHsl fun hsl => hsl.hue = 0 ∧ hsl.saturation = 0 := by
  have hdark : ¬(Color.ofLevels 1 0 0).IsGrey := fun h => absurd h.1 (by decide)
  have hwhite : Color.white.IsGrey := ⟨rfl, rfl⟩
  obtain ⟨⟨s, hs, -, hpositive⟩, -⟩ := toHsl_in_range (Color.ofLevels 1 0 0)
  obtain ⟨-, hcoordinates⟩ := toHsl_in_range Color.white
  exact ⟨hdark, hwhite, ⟨s, hs, hpositive hdark⟩, hcoordinates.mono fun _ h => h.2.2.2.1 hwhite⟩

theorem fraction_of_mem {k : Int} (h : 0 ≤ k ∧ k ≤ 100) : fraction (.int k) = k / 100 := by
  have h0 : (0 : Rat) ≤ k := by exact_mod_cast h.1
  have h1 : (k : Rat) ≤ 100 := by exact_mod_cast h.2
  show Max.max 0 (Min.min 100 (k : Rat)) / 100 = _
  rw [min_eq_right h1, max_eq_right h0]

/-- The end of the turn is its beginning. -/
theorem wheel_emod {h : Int} (hh : 0 ≤ h ∧ h ≤ 360) {j : Rat} (hj : -2 ≤ j ∧ j ≤ 2) :
    wheel ((h % 360 : Int) / 60 + j) = wheel (h / 60 + j) := by
  rcases hh.2.lt_or_eq with hlt | rfl
  · rw [Int.emod_eq_of_lt hh.1 hlt]
  · rw [show ((360 : Int) : Rat) / 60 + j = j + 6 by push_cast; ring,
      wheel_add_six hj.1 (by linarith [hj.2])]
    norm_num

/-- The level of rounded coordinates is off by less than five and a half. -/
theorem channel_close {hsl : Hsl} (h : c.IsHslOf hsl) {a k : Channel} {j : Rat}
    (hj : -2 ≤ j ∧ j ≤ 2) (ha : level (swing c.saturation (c.place + j)) c.lightness = a.val / 255)
    (hk : Channel.IsNearest noise (level (swing (fraction (.int hsl.saturation))
      ((hsl.hue % 360 : Int) / 60 + j)) (fraction (.int hsl.lightness)) * 255) k) :
    a.val ≤ k.val + 5 ∧ k.val ≤ a.val + 5 := by
  obtain ⟨hhue, hsaturation, hlightness⟩ := h.mem
  have hs0 := c.saturation_mem
  have hfraction := fraction_mem (.int hsl.saturation)
  rw [swing, wheel_emod hhue hj, ← swing] at hk
  rw [fraction_of_mem hsaturation] at hk hfraction
  rw [fraction_of_mem hlightness] at hk
  have hswing := abs_swing_sub_le (s := hsl.saturation / 100) (x := hsl.hue / 60 + j)
    (y := c.place + j) hs0.1 hs0.2
  have hlevel : |level (swing (hsl.saturation / 100) (hsl.hue / 60 + j)) (hsl.lightness / 100)
      - level (swing c.saturation (c.place + j)) c.lightness| ≤ _ :=
    abs_level_sub_le ((abs_swing_le hfraction.1 _).trans hfraction.2) c.lightness_mem.1
      c.lightness_mem.2
  rw [ha] at hlevel
  have hnear {i : Int} {X b : Rat} (hb : 0 < b) (hi : |(i : Rat) - X * b| ≤ 1 / 2 + slack) :
      |(i : Rat) / b - X| ≤ (1 / 2 + slack) / b := by
    rw [show (i : Rat) / b - X = (i - X * b) / b by field_simp, abs_div, abs_of_pos hb]
    exact div_le_div_of_nonneg_right hi hb.le
  have hA := hnear (by norm_num) h.lightness
  have hB := hnear (by norm_num) h.saturation
  have hC : |(hsl.hue : Rat) / 60 + j - (c.place + j)| ≤ (1 / 2 + slack) / 60 := by
    rw [add_sub_add_right_eq_sub]
    exact hnear (by norm_num) h.hue
  -- two hundredths and a bit of the range, and half a level
  have hfar : |(k.val : Rat) - a.val| < 6 := by
    have hdist := hk.dist_le
    have hsum := abs_sub_le (k.val : Rat) (level (swing (hsl.saturation / 100) (hsl.hue / 60 + j))
      (hsl.lightness / 100) * 255) a.val
    have hscale : |level (swing (hsl.saturation / 100) (hsl.hue / 60 + j)) (hsl.lightness / 100) * 255
        - a.val| = |level (swing (hsl.saturation / 100) (hsl.hue / 60 + j)) (hsl.lightness / 100)
        - a.val / 255| * 255 := by
      rw [← abs_of_pos (show (0 : Rat) < 255 by norm_num), ← abs_mul,
        abs_of_pos (show (0 : Rat) < 255 by norm_num)]
      congr 1
      field_simp
    have hslack : slack < 1 / 1000 := by norm_num [slack]
    have hnoise : noise < 1 / 1000 := by norm_num [noise, tick]
    linarith
  obtain ⟨hlow, hhigh⟩ := abs_lt.mp hfar
  have hlow' : (a.val : Rat) < (k.val + 5 + 1 : Nat) := by
    push_cast
    linarith
  have hhigh' : (k.val : Rat) < (a.val + 5 + 1 : Nat) := by
    push_cast
    linarith
  exact ⟨Nat.le_of_lt_succ (by exact_mod_cast hlow'), Nat.le_of_lt_succ (by exact_mod_cast hhigh')⟩

/-- **There and back.** The colour of the coordinates of a colour is off by five levels at most. -/
theorem ofHsl_close {hsl : Hsl} (h : c.IsHslOf hsl) :
    Yields (ofHsl (.int hsl.hue) (.int hsl.saturation) (.int hsl.lightness)) fun d =>
      c.LeUpTo 5 d ∧ d.LeUpTo 5 c := by
  obtain ⟨hred, hgreen, hblue⟩ := level_coordinates c
  refine (ofHsl_hasLevels hsl.hue (.int hsl.saturation) (.int hsl.lightness)).mono fun d hd => ?_
  obtain ⟨red, green, blue⟩ := hd
  rw [sub_eq_add_neg] at hblue blue
  rw [← add_zero c.place] at hgreen
  rw [← add_zero (((hsl.hue % 360 : Int) : Rat) / 60)] at green
  obtain ⟨hr, hr'⟩ := channel_close h (by norm_num) hred red
  obtain ⟨hg, hg'⟩ := channel_close h (by norm_num) hgreen green
  obtain ⟨hb, hb'⟩ := channel_close h (by norm_num) hblue blue
  exact ⟨⟨hr, hg, hb⟩, ⟨hr', hg', hb'⟩⟩

end Color

end CssValues
