import CssValues.Proofs.Color.Coordinates

/-!
# Lighter and darker

To lighten or darken a colour goes by way of its rounded coordinates, so both start from the colour
of these (`Color.ofHsl_close`) and go up or down from there (`Color.ofHsl_mono`). Main result:
`Color.lighter_and_darker`.
-/

namespace CssValues

/-! ## Sums at a clamp -/

namespace Binary64

variable {x : Binary64} {A B w z : Rat} {negative : Bool}

/-- What is rounded to an infinity is beyond the doubles, on the side of its sign. -/
theorem IsRounding.overflow_le (h : IsRounding z (.infinite negative)) :
    if negative then z ≤ -overflow else overflow ≤ z := by
  have hlarge : overflow ≤ |z| := by
    by_contra hless
    obtain ⟨v, hv⟩ := h.exists_isAt (not_le.mp hless)
    cases negative <;> cases hv
  obtain ⟨sign, heq, hsign⟩ := h
  obtain rfl : sign = negative := by
    rcases ofMagnitude_cases sign |z| with ⟨m, e, hfits, hfinite⟩ | hinfinite
    · rw [hfinite] at heq
      cases heq
    · rw [hinfinite] at heq
      cases heq
      rfl
  cases sign with
  | false =>
    have hnonneg : 0 ≤ z := hsign
    rwa [abs_of_nonneg hnonneg] at hlarge
  | true =>
    have hnonpos : z ≤ 0 := hsign
    rw [abs_of_nonpos hnonpos] at hlarge
    exact le_neg_of_le_neg hlarge

theorem IsRounding.ne_nan (h : IsRounding z x) : x ≠ .nan := by
  obtain ⟨sign, rfl, -⟩ := h
  exact ofMagnitude_ne_nan _ _

/-- A double that is not above a number is not above the clamped rounding of it. -/
theorem IsRounding.le_clamped (h : IsRounding z x) (hw : IsExact w) (hwz : w ≤ z) (hB : w ≤ B) :
    w ≤ Number.clamped A B (Number.double x).position? := by
  cases x with
  | nan => exact absurd rfl h.ne_nan
  | infinite negative =>
    cases negative with
    | false => exact hB
    | true =>
      have hfar : z ≤ -overflow := h.overflow_le
      have hbound := (abs_lt.mp hw.lt_overflow).1
      linarith
  | finite negative m e hfits =>
    obtain ⟨y, hy⟩ := hw
    have hle := (isRounding_self hy).mono h hy (Number.isAt_finite negative hfits) hwz
    exact le_max_of_le_right (le_min hB hle)

theorem IsRounding.clamped_le (h : IsRounding z x) (hw : IsExact w) (hzw : z ≤ w) (hA : A ≤ w) :
    Number.clamped A B (Number.double x).position? ≤ w := by
  cases x with
  | nan => exact absurd rfl h.ne_nan
  | infinite negative =>
    cases negative with
    | true => exact hA
    | false =>
      have hfar : overflow ≤ z := h.overflow_le
      have hbound := (abs_lt.mp hw.lt_overflow).2
      linarith
  | finite negative m e hfits =>
    obtain ⟨y, hy⟩ := hw
    have hle := h.mono (isRounding_self hy) (Number.isAt_finite negative hfits) hy hzw
    exact max_le hA ((min_le_right _ _).trans hle)

end Binary64

namespace Color

open Number
open Binary64 (IsExact)

variable {a n n' : Number} {q w : Rat} {l : Int}

/-- The fraction that a lightness has after an amount is added lies on the same side of every exact
percentage as the exact sum. -/
structure IsMoved (z : Rat) (n : Number) : Prop where
  ne_nan : n ≠ .double .nan
  le_fraction : ∀ {w : Rat}, IsExact w → w ≤ 100 → w ≤ z → w / 100 ≤ fraction n
  fraction_le : ∀ {w : Rat}, IsExact w → 0 ≤ w → z ≤ w → fraction n ≤ w / 100

theorem add_isMoved (hl : 0 ≤ l ∧ l ≤ 100) (ha : a.IsAt q) :
    Yields ((int l).add a) (IsMoved (l + q)) := by
  cases a with
  | int k =>
    obtain rfl : (k : Rat) = q := by cases ha; rfl
    refine ⟨int (l + k), rfl, nofun, fun _ hB hw => ?_, fun _ hA hw => ?_⟩
    · refine div_le_div_of_nonneg_right (le_max_of_le_right (le_min hB ?_)) (by norm_num)
      exact_mod_cast hw
    · refine div_le_div_of_nonneg_right (max_le hA ((min_le_right _ _).trans ?_)) (by norm_num)
      exact_mod_cast hw
  | double y =>
    have hl0 : (0 : Rat) ≤ l := by exact_mod_cast hl.1
    have hl1 : (l : Rat) ≤ 100 := by exact_mod_cast hl.2
    obtain ⟨x, hx, hxat⟩ := (isAt_int l).exists_toDouble
      (by rw [abs_of_nonneg hl0]; linarith)
    have hrounding := Binary64.isRounding_add hxat ha
    have hadd : (int l).add (.double y) = .ok (.double (x.add y)) :=
      combine_of_not_int (fun h => not_isInt_double y h.2) hx rfl
    refine ⟨_, hadd, fun h => hrounding.ne_nan (Number.double.inj h), fun hexact hB hw => ?_,
      fun hexact hA hw => ?_⟩
    · exact div_le_div_of_nonneg_right (hrounding.le_clamped hexact hw hB) (by norm_num)
    · exact div_le_div_of_nonneg_right (hrounding.clamped_le hexact hw hA) (by norm_num)

/-! ## The order of colours -/

variable {c d : Color} {S L L' y : Rat}

/-- A difference of lightness that shows in every channel that has not reached its end. -/
def step : Rat := 1 / 2 ^ 20 / 100

theorem channel_le_add_one {z : Rat} {k k' : Channel} (hz : |z| ≤ 1) (hL : L ≤ L')
    (h : Channel.IsNearest noise (level z L * 255) k)
    (h' : Channel.IsNearest noise (level z L' * 255) k') : k.val ≤ k'.val + 1 :=
  h.le_add_one h' noise_lt (by linarith [level_mono hz hL])

theorem channel_le {j : Int} {k k' : Channel} (hz : |(j : Rat) / 3000| ≤ 1) (hL : L ≤ L')
    (hstep : L = 0 ∨ L' = 1 ∨ step ≤ L' - L)
    (h : Channel.IsNearest noise (level (j / 3000) L * 255) k)
    (h' : Channel.IsNearest noise (level (j / 3000) L' * 255) k') : k.val ≤ k'.val := by
  have hmono := level_mono hz hL
  have hcases : level (j / 3000) L = 0 ∨ level (j / 3000) L' = 1
      ∨ step / 3000 ≤ level (j / 3000) L' - level (j / 3000) L := by
    rcases hstep with rfl | rfl | hstep
    · exact .inl (by rw [level_of_le (by norm_num)]; ring)
    · exact .inr (.inl (by rw [level_of_ge (by norm_num)]; ring))
    · refine (level_gap hz hL).imp_right (.imp_right fun hgap => le_trans ?_ hgap)
      exact div_le_div_of_nonneg_right hstep (by norm_num)
  rcases hcases with hdown | hup | hgap
  · refine h.le_of_int (i := 0) h' noise_lt ?_ ?_
    · rw [hdown]
      norm_num
    · rw [hdown] at hmono
      rw [Int.cast_zero]
      linarith
  · refine h.le_of_int (i := 255) h' noise_lt ?_ ?_
    · rw [hup] at hmono
      rw [Int.cast_ofNat]
      linarith
    · rw [hup]
      norm_num
  · refine h.le_of_gap h' ?_
    have hnoise : 2 * noise ≤ step / 3000 * 255 := by norm_num [noise, step, tick]
    linarith

/-- A saturation in whole percent stays one. -/
theorem exists_fraction_int (s : Int) : ∃ k : Int, fraction (.int s) = k / 100 := by
  refine ⟨max 0 (min 100 s), ?_⟩
  push_cast
  rfl

/-- **Order.** At one hue and one saturation colours are ordered by their lightness, up to the last
level where the difference is very small. -/
theorem ofHsl_mono (h s : Int) (hle : fraction n ≤ fraction n') :
    Yields (ofHsl (.int h) (.int s) n) fun c => Yields (ofHsl (.int h) (.int s) n') fun d =>
      c.LeUpTo 1 d ∧ (fraction n = 0 ∨ fraction n' = 1 ∨ step ≤ fraction n' - fraction n →
        c.LeUpTo 0 d) := by
  refine (ofHsl_hasLevels h (.int s) n).mono fun c hc => (ofHsl_hasLevels h (.int s) n').mono
    fun d hd => ?_
  obtain ⟨k, hk⟩ := exists_fraction_int s
  have hS := fraction_mem (.int s)
  -- the places of the three channels are in whole degrees
  have hred : ((h % 360 : Int) : Rat) / 60 + 2 = ((h % 360 + 120 : Int) : Rat) / 60 := by
    push_cast
    ring
  have hblue : ((h % 360 : Int) : Rat) / 60 - 2 = ((h % 360 - 120 : Int) : Rat) / 60 := by
    push_cast
    ring
  obtain ⟨red, green, blue⟩ := hc
  obtain ⟨red', green', blue'⟩ := hd
  rw [hred] at red red'
  rw [hblue] at blue blue'
  have hswing (i : Int) : ∃ j : Int, swing (fraction (.int s)) (i / 60) = j / 3000
      ∧ |(j : Rat) / 3000| ≤ 1 := by
    obtain ⟨j, hj⟩ := exists_swing_eq k i
    rw [← hk] at hj
    exact ⟨j, hj, hj ▸ (abs_swing_le hS.1 _).trans hS.2⟩
  obtain ⟨i, hi, hi1⟩ := hswing (h % 360 + 120)
  obtain ⟨j, hj, hj1⟩ := hswing (h % 360)
  obtain ⟨k, hk, hk1⟩ := hswing (h % 360 - 120)
  rw [hi] at red red'
  rw [hj] at green green'
  rw [hk] at blue blue'
  exact ⟨⟨channel_le_add_one hi1 hle red red', channel_le_add_one hj1 hle green green',
    channel_le_add_one hk1 hle blue blue'⟩, fun hstep => ⟨channel_le hi1 hle hstep red red',
    channel_le hj1 hle hstep green green', channel_le hk1 hle hstep blue blue'⟩⟩

/-! ## Amounts -/

variable {hsl : Hsl}

theorem lighten_eq (hc : c.toHsl = .ok hsl) (hn : (int hsl.lightness).add a = .ok n) :
    c.lighten a = ofHsl (.int hsl.hue) (.int hsl.saturation) n := by
  unfold lighten
  rw [hc]
  show ((int hsl.lightness).add a >>= _) = _
  rw [hn]
  exact ofHsl_congr _ _ (fraction_min n)

namespace IsMoved

variable (hl : 0 ≤ l ∧ l ≤ 100)

include hl

theorem isExact_percent : IsExact (l : Rat) := by
  simpa using Binary64.isExact_intCast_div (n := l) (k := 0) (by omega) (by norm_num)

/-- A lightness in whole percent leaves room for a small step. -/
theorem isExact_step {i : Int} (hi : -1 ≤ i ∧ i ≤ 1) : IsExact (l + i / 2 ^ 20 : Rat) := by
  have hexact := Binary64.isExact_intCast_div (n := l * 2 ^ 20 + i) (k := 20) (by omega) (by norm_num)
  rwa [Int.cast_add, Int.cast_mul, add_div, Int.cast_pow, Int.cast_ofNat,
    mul_div_cancel_right₀ _ (by norm_num)] at hexact

theorem le_fraction_of_nonneg (h : IsMoved (l + q) n) (hq : 0 ≤ q) : (l : Rat) / 100 ≤ fraction n :=
  h.le_fraction (isExact_percent hl) (by exact_mod_cast hl.2) (by linarith)

theorem fraction_le_of_nonpos (h : IsMoved (l + q) n) (hq : q ≤ 0) : fraction n ≤ (l : Rat) / 100 :=
  h.fraction_le (isExact_percent hl) (by exact_mod_cast hl.1) (by linarith)

theorem fraction_eq (h : IsMoved (l + q) n) (hq : q = 0) : fraction n = l / 100 :=
  le_antisymm (h.fraction_le_of_nonpos hl hq.le) (h.le_fraction_of_nonneg hl hq.ge)

/-- An amount that is not very small leads to the upper end or a step up. -/
theorem step_up (h : IsMoved (l + q) n) (hq : 1 / 2 ^ 20 ≤ q) :
    fraction n = 1 ∨ step ≤ fraction n - l / 100 := by
  rcases hl.2.lt_or_eq with hless | rfl
  · right
    have hless' : (l : Rat) + 1 ≤ 100 := by exact_mod_cast hless
    have hstep : (1 : Rat) / 2 ^ 20 ≤ 1 := by norm_num
    have hup := h.le_fraction (isExact_step hl (i := 1) (by norm_num))
      (by rw [Int.cast_one]; linarith) (by rw [Int.cast_one]; linarith)
    rw [Int.cast_one, add_div] at hup
    unfold step
    linarith
  · left
    have hup := h.le_fraction_of_nonneg hl (le_trans (by positivity) hq)
    rw [Int.cast_ofNat, div_self (by norm_num)] at hup
    exact le_antisymm (fraction_mem n).2 hup

theorem step_down (h : IsMoved (l + q) n) (hq : q ≤ -(1 / 2 ^ 20)) :
    fraction n = 0 ∨ step ≤ l / 100 - fraction n := by
  rcases hl.1.lt_or_eq with hless | rfl
  · right
    have hless' : (1 : Rat) ≤ l := by exact_mod_cast hless
    have hstep : (1 : Rat) / 2 ^ 20 ≤ 1 := by norm_num
    have hdown := h.fraction_le (isExact_step hl (i := -1) (by norm_num))
      (by rw [Int.cast_neg, Int.cast_one, neg_div]; linarith)
      (by rw [Int.cast_neg, Int.cast_one, neg_div]; linarith)
    rw [Int.cast_neg, Int.cast_one, neg_div, add_div, neg_div] at hdown
    unfold step
    linarith
  · left
    have hdown := h.fraction_le_of_nonpos hl (hq.trans (by norm_num))
    rw [Int.cast_zero, zero_div] at hdown
    exact le_antisymm hdown (fraction_mem n).1

end IsMoved

theorem isAt_neg (ha : a.IsAt q) : a.neg.IsAt (-q) := by
  cases a with
  | int k =>
    obtain rfl : (k : Rat) = q := by cases ha; rfl
    rw [← Int.cast_neg]
    exact isAt_int (-k)
  | double x => exact Binary64.isAt_neg ha

theorem ne_nan_of_isAt (ha : a.IsAt q) : a ≠ .double .nan := by
  rintro rfl
  cases ha

/-- A colour that is lightened by an amount of either sign has its hue and its saturation and a
lightness on the side of the amount. -/
theorem lighten_moves (hc : c.toHsl = .ok hsl) (hl : 0 ≤ hsl.lightness ∧ hsl.lightness ≤ 100)
    (ha : a.IsAt q) : ∃ n, c.lighten a = ofHsl (.int hsl.hue) (.int hsl.saturation) n
      ∧ IsMoved (hsl.lightness + q) n := by
  obtain ⟨n, hn, hmoved⟩ := add_isMoved hl ha
  exact ⟨n, lighten_eq hc hn, hmoved⟩

/-- **Lighter and darker.** Lightened or darkened by nothing a colour becomes the colour of its
rounded coordinates, which is off by five levels at most. From there an amount makes no channel
darker, or lighter, unless it is below a millionth of a percentage point, and then by one level at
most. -/
theorem lighter_and_darker (c : Color) : ∃ hsl d, c.toHsl = .ok hsl
    ∧ ofHsl (.int hsl.hue) (.int hsl.saturation) (.int hsl.lightness) = .ok d
    ∧ c.lighten 0 = .ok d ∧ c.darken 0 = .ok d ∧ c.LeUpTo 5 d ∧ d.LeUpTo 5 c
    ∧ ∀ {a : Number} {q : Rat}, a.IsAt q → 0 ≤ q → ∃ u v, c.lighten a = .ok u ∧ c.darken a = .ok v
      ∧ d.LeUpTo 1 u ∧ v.LeUpTo 1 d
      ∧ (q = 0 → u = d ∧ v = d)
      ∧ (1 / 10 ^ 6 ≤ q → d.LeUpTo 0 u ∧ v.LeUpTo 0 d) := by
  obtain ⟨hsl, hhsl, hcoordinates⟩ := toHsl_isHslOf c
  obtain ⟨-, -, hl⟩ := hcoordinates.mem
  obtain ⟨d, hd, hclose, hclose'⟩ := ofHsl_close hcoordinates
  have hbase := fraction_of_mem hl
  have hzero {a : Number} (ha : a.IsAt 0) : c.lighten a = .ok d := by
    obtain ⟨n, hn, hmoved⟩ := lighten_moves hhsl hl ha
    rw [hn, ← hd]
    exact ofHsl_congr _ _ ((hmoved.fraction_eq hl rfl).trans hbase.symm)
  have hdarken {a : Number} {q : Rat} (ha : a.IsAt q) : c.darken a = c.lighten a.neg :=
    (lighten_neg c (ne_nan_of_isAt ha)).symm
  refine ⟨hsl, d, hhsl, hd, hzero isAt_zero, ?_, hclose, hclose', fun {a q} ha hq => ?_⟩
  · rw [hdarken isAt_zero]
    exact hzero (by simpa using isAt_neg isAt_zero)
  obtain ⟨n, hn, hup⟩ := lighten_moves hhsl hl ha
  obtain ⟨m, hm, hdown⟩ := lighten_moves hhsl hl (isAt_neg ha)
  have hn0 := hup.le_fraction_of_nonneg hl hq
  have hm0 := hdown.fraction_le_of_nonpos hl (by linarith)
  rw [← hbase] at hn0 hm0
  obtain ⟨d', hd', u, hu, hup1, hup0⟩ := ofHsl_mono hsl.hue hsl.saturation hn0
  obtain ⟨v, hv, d'', hd'', hdown1, hdown0⟩ := ofHsl_mono hsl.hue hsl.saturation hm0
  obtain rfl := Except.ok.inj (hd.symm.trans hd')
  obtain rfl := Except.ok.inj (hd.symm.trans hd'')
  refine ⟨u, v, hn.trans hu, (hdarken ha).trans (hm.trans hv), hup1, hdown1, ?_, fun hmore => ?_⟩
  · rintro rfl
    have hv' := hzero (a := a.neg) (by simpa using isAt_neg ha)
    exact ⟨Except.ok.inj ((hn.trans hu).symm.trans (hzero ha)),
      Except.ok.inj ((hm.trans hv).symm.trans hv')⟩
  · have hstep : (1 : Rat) / 2 ^ 20 ≤ q := le_trans (by norm_num) hmore
    have hraised := hup.step_up hl hstep
    have hlowered := hdown.step_down hl (neg_le_neg hstep)
    rw [← hbase] at hraised hlowered
    exact ⟨hup0 (.inr hraised), hdown0 (hlowered.imp_right .inr)⟩

/-- A percentage point, and the darkest red, which does not have room for it. -/
theorem lighter_and_darker_dark_red : ∃ d u v, (Color.mk 1 0 0).lighten 0 = .ok d
    ∧ (Color.mk 1 0 0).lighten 1 = .ok u ∧ (Color.mk 1 0 0).darken 1 = .ok v
    ∧ d.LeUpTo 0 u ∧ v.LeUpTo 0 d := by
  obtain ⟨-, d, -, -, hd, -, -, -, hamount⟩ := lighter_and_darker (Color.mk 1 0 0)
  obtain ⟨u, v, hu, hv, -, -, -, horder⟩ := hamount (isAt_int 1) (by norm_num)
  exact ⟨d, u, v, hd, hu, hv, horder (by norm_num)⟩

/-- A red that keeps its coordinates, and an amount so small that the errors decide a tie. -/
example : (Color.mk 230 25 25).lighten 0 = .ok (Color.mk 230 25 25)
    ∧ (Color.mk 230 25 25).lighten (.double (Binary64.ofRat (3 / 10 ^ 14)))
      = .ok (Color.mk 229 26 26) := by
  decide +kernel

/-- The darkest red has a lightness that is rounded to zero, so it is not kept. -/
theorem lighten_zero_dark_red : ¬ ∀ (c : Color) (a : Number) (q : Rat), a.IsAt q → 0 ≤ q →
    ∃ u v, c.lighten a = .ok u ∧ c.darken a = .ok v ∧ c.LeUpTo 0 u ∧ v.LeUpTo 0 c := by
  intro h
  obtain ⟨u, -, hu, -, hle, -⟩ := h (Color.mk 1 0 0) 0 0 isAt_zero le_rfl
  have hblack : (Color.mk 1 0 0).lighten 0 = .ok .black := by decide +kernel
  obtain rfl := Except.ok.inj (hu.symm.trans hblack)
  exact absurd hle.red (by decide)

end Color

end CssValues
