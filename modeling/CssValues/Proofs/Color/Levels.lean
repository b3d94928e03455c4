import CssValues.Proofs.Color.Channel
import CssValues.Proofs.Color.Hsl
import CssValues.Proofs.Color.Wheel

/-!
# The levels of hue, saturation and lightness

The colour of a hue, a saturation and a lightness has in each channel the exact level there, but for
small errors (`Color.ofHsl_hasLevels`). The lightness counts with its place between 0 and 100 only
(`Color.ofHsl_congr`), so it makes no difference whether it was kept below its upper end before
(`Color.fraction_min`) or above its lower one (`Color.fraction_max`).
-/

namespace CssValues.Color

open Number
open Binary64 (IsRounding)

variable {n : Number} {m : Rat}

/-! ## Percentages -/

/-- A percentage as a fraction. -/
def fraction (n : Number) : Rat := clamped 0 100 n.position? / 100

theorem fraction_mem (n : Number) : 0 ≤ fraction n ∧ fraction n ≤ 1 := by
  obtain ⟨h0, h1⟩ := clamped_mem (A := 0) (B := 100) (by norm_num) n.position?
  exact ⟨by unfold fraction; linarith, by unfold fraction; linarith⟩

/-- It is rounded once, whatever kind of number it is. -/
theorem percentFraction_eq (n : Number) :
    percentFraction n = .ok (.double (Binary64.ofRat (fraction n))) := by
  have hclamp := isAt_clamp isAt_zero (isAt_int 100) (by norm_num) n
  obtain ⟨h0, h1⟩ := fraction_mem n
  have hvalue : clamped 0 ((100 : Int) : Rat) n.position? = fraction n * 100 := by
    rw [fraction, div_mul_cancel₀ _ (by norm_num), Int.cast_ofNat]
  rw [hvalue] at hclamp
  unfold percentFraction
  rcases h0.eq_or_lt with hzero | hpos
  · -- the zero is the integer
    rw [← hzero] at hclamp ⊢
    have hlow : Number.max 0 (Number.min 100 n) = 0 := by
      refine max_of_not_lt (Bool.eq_false_iff.mpr fun hlt => ?_)
      rw [show Number.max 0 (Number.min (int 100) n) = Number.min 100 n from max_of_lt hlt] at hclamp
      exact (lt_iff isAt_zero hclamp).mp hlt |>.ne (by norm_num)
    rw [hlow]
    show intQuotient 0 100 = _
    simp [intQuotient, Binary64.ofMagnitude_zero, Binary64.zero, Binary64.ofRat]
  · have hsize : |fraction n * 100| < 2 ^ 53 := by
      rw [abs_of_nonneg (by linarith)]
      linarith
    obtain ⟨_, hdiv, x, rfl, hrounding⟩ :=
      hclamp.div (isAt_int 100) hsize (by norm_num) (by norm_num)
    rw [Int.cast_ofNat, mul_div_cancel_right₀ _ (by norm_num)] at hrounding
    rw [← hrounding.eq_ofRat hpos.ne']
    exact hdiv

theorem percentFraction_near (n : Number) :
    Yields (percentFraction n) (·.Near 0 (fraction n) 1) := by
  obtain ⟨h0, h1⟩ := fraction_mem n
  refine ⟨_, percentFraction_eq n, .of_isRounding (Binary64.isRounding_ofRat _) (Nat.zero_le 6) ?_⟩
  rw [abs_of_nonneg h0]
  linarith

/-- The place of the lightness between its ends is all that counts. -/
theorem ofHsl_congr (h s : Number) {l l' : Number} (hl : fraction l = fraction l') :
    ofHsl h s l = ofHsl h s l' := by
  have hpercent : percentFraction l = percentFraction l' := by
    rw [percentFraction_eq, percentFraction_eq, hl]
  unfold ofHsl
  rw [hpercent]

/-- What is kept below the upper end beforehand has the same place. -/
theorem fraction_min (n : Number) : fraction (Number.min 100 n) = fraction n :=
  congrArg (· / 100) (clamped_min (isAt_int 100) (by norm_num) n)

/-- So has what is kept above the lower one. -/
theorem fraction_max (hn : n ≠ .double .nan) : fraction (Number.max 0 n) = fraction n :=
  congrArg (· / 100) (clamped_max isAt_zero (by norm_num) hn)

/-! ## Places on the circle -/

/-- What is at most six is of the smallest size. -/
theorem abs_le_six {a : Rat} (hlow : -6 ≤ a) (hhigh : a ≤ 6) : |a| ≤ 6 * 2 ^ 0 := by
  rw [pow_zero, mul_one]
  exact abs_le.mpr ⟨hlow, hhigh⟩

/-- The integers of that size are exact. -/
theorem near_int (k : Int) (hk : -6 ≤ k ∧ k ≤ 6) : (int k).Near 0 k 0 :=
  .of_isAt (isAt_int k) (Nat.zero_le 6)
    (abs_le_six (by exact_mod_cast hk.1) (by exact_mod_cast hk.2))

/-- Quotients of small integers are a tick off at most. -/
theorem quotient_near {i j : Int} (hi : 0 ≤ i ∧ i ≤ 6 * j) (hj : 0 < j ∧ j ≤ 360) :
    Yields ((int i).div (int j)) (·.Near 0 (i / j) 1) := by
  have hi0 : (0 : Rat) ≤ i := by exact_mod_cast hi.1
  have hi1 : (i : Rat) ≤ 6 * j := by exact_mod_cast hi.2
  have hj0 : (0 : Rat) < j := by exact_mod_cast hj.1
  have hj1 : (j : Rat) ≤ 360 := by exact_mod_cast hj.2
  have hsize {k : Rat} (h0 : 0 ≤ k) (h1 : k ≤ 6 * 360) : |k| < 2 ^ 53 := by
    rw [abs_of_nonneg h0]
    linarith
  obtain ⟨_, hdiv, x, rfl, hrounding⟩ := (isAt_int i).div (isAt_int j) (hsize hi0 (by linarith))
    (hsize hj0.le (by linarith)) hj0.ne'
  refine ⟨_, hdiv, .of_isRounding hrounding (Nat.zero_le 6) ?_⟩
  rw [abs_of_nonneg (div_nonneg hi0 hj0.le), pow_zero, mul_one]
  exact (div_le_iff₀ hj0).mpr hi1

variable {p q t t' : Number} {P Q τ : Rat}

/-- A place behind the turn is taken one turn on. -/
theorem hueLevel_of_behind (h : t.lt 0 = true) (hadd : t.add 1 = .ok t') (h' : t'.lt 0 = false) :
    hueLevel p q t = hueLevel p q t' := by
  unfold hueLevel
  simp only [h, h', if_true, hadd]
  rfl

/-- A place ahead of it is taken one turn back. -/
theorem hueLevel_of_ahead (h0 : t.lt 0 = false) (h1 : Number.lt 1 t = true)
    (hsub : t.sub 1 = .ok t') (h0' : t'.lt 0 = false) (h1' : Number.lt 1 t' = false) :
    hueLevel p q t = hueLevel p q t' := by
  unfold hueLevel
  simp only [h0, h0', Bool.false_eq_true, if_false]
  show (if Number.lt 1 t = true then _ else _) = (if Number.lt 1 t' = true then _ else _)
  rw [if_pos h1, if_neg (by simp [h1']), hsub]

/-- Every place is taken into the turn, where it has the shade of the whole circle. -/
theorem exists_hueLevel_eq (ht : t.IsAt τ) (hlow : -1 / 3 - 3 * tick 0 ≤ τ) (hhigh : τ ≤ 2) :
    ∃ t' τ', hueLevel p q t = hueLevel p q t' ∧ t'.IsAt τ' ∧ (0 ≤ τ' ∧ τ' ≤ 1)
      ∧ |shade (6 * τ') - wheel (6 * τ)| ≤ (24 : Nat) * tick 0 := by
  have htick := tick_pos 0
  have htick1 : tick 0 ≤ 1 / 6 := by norm_num [tick]
  have hnear : t.Near 0 τ 0 :=
    .of_isAt ht (Nat.zero_le 6) (abs_le.mpr ⟨by linarith, by linarith⟩)
  have hone : (1 : Number).Near 0 1 0 := near_int 1 (by decide)
  have honeIn : (1 : Number).Within 1 1 := within_ofNat (n := 1) (by simp) (by simp) (by simp) (by simp)
  have hlt0 {u : Number} {v : Rat} (hu : u.IsAt v) (h : 0 ≤ v) : u.lt 0 = false :=
    Bool.eq_false_iff.mpr fun hlt => h.not_gt ((lt_iff hu isAt_zero).mp hlt)
  have hlt1 {u : Number} {v : Rat} (hu : u.IsAt v) (h : v ≤ 1) : Number.lt 1 u = false :=
    Bool.eq_false_iff.mpr fun hlt => h.not_gt ((lt_iff (isAt_int 1) hu).mp hlt)
  rcases lt_or_ge τ 0 with hbehind | hbehind
  · have hin : t.Within (-1) 0 := ⟨by simp, by simp, τ, ht, by linarith, hbehind.le⟩
    obtain ⟨t', hadd, hbounds⟩ := hin.add honeIn (E := 0) (F := 1) (by norm_num) (by norm_num)
      (by simp) (by simp)
    obtain ⟨_, hadd', hsum⟩ := hnear.add hone (abs_le.mpr ⟨by linarith, by linarith⟩) (by norm_num)
    obtain rfl := Except.ok.inj (hadd.symm.trans hadd')
    obtain ⟨-, -, -, τ', hτ', herror⟩ := hsum
    obtain ⟨h0, h1⟩ := hbounds.bounds hτ'
    refine ⟨t', τ', hueLevel_of_behind ((lt_iff ht isAt_zero).mpr hbehind) hadd (hlt0 hτ' h0), hτ',
      ⟨h0, h1⟩, ?_⟩
    rw [wheel_eq_shade (by linarith), shade_down (y := 6 * τ) (.inl (by linarith))]
    -- the channel is down again at two thirds of the turn
    obtain ⟨herrorLow, -⟩ := abs_le.mp herror
    push_cast at herrorLow ⊢
    rw [sub_zero]
    exact abs_shade_le ⟨by linarith, by norm_num [tick]⟩ (by linarith)
  rcases le_or_gt τ 1 with hahead | hahead
  · refine ⟨t, τ, rfl, ht, ⟨hbehind, hahead⟩, ?_⟩
    rw [wheel_eq_shade (by linarith), sub_self, abs_zero]
    positivity
  · have hin : t.Within 1 2 := ⟨by simp, by simp, τ, ht, hahead.le, hhigh⟩
    obtain ⟨t', hsub, hbounds⟩ := hin.sub honeIn (E := 0) (F := 1) (by norm_num) (by norm_num)
      (by simp) (by simp)
    obtain ⟨_, hsub', hdiff⟩ := hnear.sub hone (abs_le.mpr ⟨by linarith, by linarith⟩) (by norm_num)
    obtain rfl := Except.ok.inj (hsub.symm.trans hsub')
    obtain ⟨-, -, -, τ', hτ', herror⟩ := hdiff
    obtain ⟨h0, h1⟩ := hbounds.bounds hτ'
    refine ⟨t', τ', hueLevel_of_ahead (hlt0 ht hbehind) ((lt_iff (isAt_int 1) ht).mpr ?_) hsub
      (hlt0 hτ' h0) (hlt1 hτ' h1), hτ', ⟨h0, h1⟩, ?_⟩
    · simpa using hahead
    rw [wheel_eq_shade_sub (by linarith), show 6 * τ - 6 = 6 * (τ - 1) by ring]
    refine (abs_shade_sub_le _ _).trans ?_
    rw [← mul_sub, abs_mul, abs_of_pos (show (0 : Rat) < 6 by norm_num)]
    push_cast at herror ⊢
    linarith

/-- Between two levels, or not far beyond them. -/
theorem abs_between_le {X : Rat} (hP : 0 ≤ P ∧ P ≤ 1) (hQ : 0 ≤ Q ∧ Q ≤ 1) (hX : |X| ≤ 2) :
    |P + (Q - P) * X| ≤ 6 * 2 ^ 0 := by
  have hrange : |Q - P| ≤ 1 := abs_le.mpr ⟨by linarith, by linarith⟩
  have hproduct : |(Q - P) * X| ≤ 2 := by
    rw [abs_mul]
    exact (mul_le_of_le_one_left (abs_nonneg X) hrange).trans hX
  obtain ⟨hlow, hhigh⟩ := abs_le.mp hproduct
  exact abs_le_six (by linarith) (by linarith)

/-- Between two levels a small difference of the place stays small. -/
theorem abs_between_sub_le {X Y e : Rat} (hP : 0 ≤ P ∧ P ≤ 1) (hQ : 0 ≤ Q ∧ Q ≤ 1)
    (h : |X - Y| ≤ e) : |P + (Q - P) * X - (P + (Q - P) * Y)| ≤ e := by
  have hrange : |Q - P| ≤ 1 := abs_le.mpr ⟨by linarith, by linarith⟩
  rw [add_sub_add_left_eq_sub, ← mul_sub, abs_mul]
  exact (mul_le_of_le_one_left (abs_nonneg _) hrange).trans h

section

variable {m : Nat} (hm : m ≤ 1000) (hp : p.Near 0 P m) (hq : q.Near 0 Q m) (hP : 0 ≤ P ∧ P ≤ 1)
  (hQ : 0 ≤ Q ∧ Q ≤ 1)

include hm hp hq hP hQ

/-- The level on the way up. -/
theorem rising_near (ht : t.Near 0 τ 0) (hτ : 0 ≤ τ ∧ τ ≤ 1 / 3) :
    Yields (do
      let range ← q.sub p
      let slope ← range.mul 6
      let climb ← slope.mul t
      p.add climb) (·.Near 0 (P + (Q - P) * (6 * τ)) (13 * m + 38)) := by
  have hrange : |Q - P| ≤ (1 : Nat) := by
    rw [Nat.cast_one]
    exact abs_le.mpr ⟨by linarith, by linarith⟩
  have hslope : |(Q - P) * 6| ≤ (6 : Nat) := by
    rw [abs_mul]
    push_cast at hrange ⊢
    norm_num
    exact hrange
  have hplace : |τ| ≤ (1 : Nat) := by
    rw [abs_of_nonneg hτ.1, Nat.cast_one]
    linarith
  refine (hq.sub hp (abs_le_six (by linarith) (by linarith)) (by omega)).bind fun range hrange' => ?_
  refine (hrange'.mul (near_int 6 (by decide)) 1 6 hrange (by norm_num) (by norm_num)
    (by omega)).bind fun slope hslope' => ?_
  refine (hslope'.mul ht 6 1 hslope hplace (by norm_num) (by omega)).bind fun climb hclimb => ?_
  rw [show (Q - P) * ((6 : Int) : Rat) * τ = (Q - P) * (6 * τ) by push_cast; ring] at hclimb
  refine (hp.add hclimb (abs_between_le hP hQ ?_) (by omega)).mono fun _ h =>
    h.mono (by omega) (by omega)
  exact abs_le.mpr ⟨by linarith, by linarith⟩

/-- The level on the way down. -/
theorem falling_near (ht : t.Near 0 τ 0) (hτ : 1 / 3 ≤ τ ∧ τ ≤ 1) :
    Yields (do
      let range ← q.sub p
      let third ← (2 : Number).div 3
      let rest ← third.sub t
      let part ← range.mul rest
      let climb ← part.mul 6
      p.add climb) (·.Near 0 (P + (Q - P) * (4 - 6 * τ)) (13 * m + 38)) := by
  have hrange : |Q - P| ≤ (1 : Nat) := by
    rw [Nat.cast_one]
    exact abs_le.mpr ⟨by linarith, by linarith⟩
  have hrest : |2 / 3 - τ| ≤ (1 : Nat) := by
    rw [Nat.cast_one]
    exact abs_le.mpr ⟨by linarith, by linarith⟩
  have hpart : |(Q - P) * (2 / 3 - τ)| ≤ (1 : Nat) := by
    rw [abs_mul, Nat.cast_one] at *
    exact mul_le_one₀ hrange (abs_nonneg _) hrest
  refine (hq.sub hp (abs_le_six (by linarith) (by linarith)) (by omega)).bind fun range hrange' => ?_
  refine (quotient_near (i := 2) (j := 3) (by decide) (by decide)).bind fun third hthird => ?_
  push_cast at hthird
  refine (hthird.sub ht (abs_le_six (by linarith) (by linarith)) (by omega)).bind fun rest hrest' => ?_
  refine (hrange'.mul hrest' 1 1 hrange hrest (by norm_num) (by omega)).bind fun part hpart' => ?_
  refine (hpart'.mul (near_int 6 (by decide)) 1 6 hpart (by norm_num) (by norm_num)
    (by omega)).bind fun climb hclimb => ?_
  rw [show (Q - P) * (2 / 3 - τ) * ((6 : Int) : Rat) = (Q - P) * (4 - 6 * τ) by push_cast; ring]
    at hclimb
  refine (hp.add hclimb (abs_between_le hP hQ ?_) (by omega)).mono fun _ h =>
    h.mono (by omega) (by omega)
  exact abs_le.mpr ⟨by linarith, by linarith⟩

/-- Within the turn each part of the formula gives the shade of its part. -/
theorem hueLevel_near (ht : t.IsAt τ) (hτ : 0 ≤ τ ∧ τ ≤ 1) :
    Yields (hueLevel p q t) (·.Near 0 (P + (Q - P) * shade (6 * τ)) (13 * m + 50)) := by
  obtain ⟨hτ0, hτ1⟩ := hτ
  have htick := tick_pos 0
  have htick1 : tick 0 ≤ 1 / 12 := by norm_num [tick]
  have hplace : t.Near 0 τ 0 := .of_isAt ht (Nat.zero_le 6) (abs_le_six (by linarith) (by linarith))
  have hbehind : ¬t.lt 0 = true := fun hlt => hτ0.not_gt ((lt_iff ht isAt_zero).mp hlt)
  have hahead : ¬Number.lt 1 t = true := fun hlt => by
    have := (lt_iff (isAt_int 1) ht).mp hlt
    rw [Int.cast_one] at this
    linarith
  -- the error of a constant is six times as large when sixths of a turn are counted
  have hslack : 0 ≤ 12 * tick 0 ∧ 12 * tick 0 ≤ 1 := ⟨by linarith, by linarith⟩
  have hsize : |P + (Q - P) * shade (6 * τ)| ≤ 6 * 2 ^ 0 :=
    abs_between_le hP hQ (abs_le.mpr ⟨by linarith [shade_nonneg (6 * τ)],
      by linarith [shade_le_one (6 * τ)]⟩)
  have hshift {c : Number} {k : Nat} {X : Rat} (hc : c.Near 0 (P + (Q - P) * X) k)
      (hX : |X - shade (6 * τ)| ≤ 12 * tick 0) (hk : k ≤ 13 * m + 38) :
      c.Near 0 (P + (Q - P) * shade (6 * τ)) (13 * m + 50) := by
    have hdiff : |P + (Q - P) * X - (P + (Q - P) * shade (6 * τ))| ≤ (12 : Nat) * tick 0 := by
      rw [Nat.cast_ofNat]
      exact abs_between_sub_le hP hQ hX
    exact (hc.shift 12 hdiff hsize (by omega)).mono (by omega) (by omega)
  unfold hueLevel
  rw [if_neg hbehind]
  show Yields (if Number.lt 1 t = true then _ else _) _
  rw [if_neg hahead]
  refine (quotient_near (i := 1) (j := 6) (by decide) (by decide)).bind fun sixth hsixth => ?_
  split
  · -- rising
    next hlt =>
    have hbelow := hplace.sub_le_of_lt hsixth hlt
    push_cast at hbelow
    have hshade := abs_rising_sub_shade_le (y := 6 * τ) hslack (by linarith) (by linarith)
    exact (rising_near hm hp hq hP hQ hplace ⟨hτ0, by linarith⟩).mono fun c hc =>
      hshift hc hshade le_rfl
  next hlt =>
  have habove := hplace.sub_le_of_not_lt hsixth hlt
  push_cast at habove
  refine (quotient_near (i := 1) (j := 2) (by decide) (by decide)).bind fun half hhalf => ?_
  split
  · -- up
    next hlt =>
    have hbelow := hplace.sub_le_of_lt hhalf hlt
    push_cast at hbelow
    have hshade := abs_up_sub_shade_le (y := 6 * τ) hslack (by linarith) (by linarith)
    refine .ok (hshift (k := m) (X := 1) ?_ hshade (by omega))
    rwa [mul_one, add_sub_cancel]
  next hlt =>
  have habove := hplace.sub_le_of_not_lt hhalf hlt
  push_cast at habove
  refine (quotient_near (i := 2) (j := 3) (by decide) (by decide)).bind fun third hthird => ?_
  split
  · -- falling
    next hlt =>
    have hbelow := hplace.sub_le_of_lt hthird hlt
    push_cast at hbelow
    have hshade := abs_falling_sub_shade_le (y := 6 * τ) hslack (by linarith) (by linarith)
    exact (falling_near hm hp hq hP hQ hplace ⟨by linarith, hτ1⟩).mono fun c hc =>
      hshift hc hshade le_rfl
  · -- down
    next hlt =>
    have habove := hplace.sub_le_of_not_lt hthird hlt
    push_cast at habove
    have hshade := abs_shade_le (y := 6 * τ) hslack (by linarith)
    refine .ok (hshift (k := m) (X := 0) ?_ (by rwa [zero_sub, abs_neg]) (by omega))
    rwa [mul_zero, add_zero]

end

/-- At every place the formula gives the shade of the whole circle. -/
theorem hueLevel_near_wheel {m : Nat} {T : Rat} (hm : m ≤ 1000) (hp : p.Near 0 P m)
    (hq : q.Near 0 Q m) (hP : 0 ≤ P ∧ P ≤ 1) (hQ : 0 ≤ Q ∧ Q ≤ 1) (ht : t.Near 0 T 3)
    (hT : -1 / 3 ≤ T ∧ T ≤ 4 / 3) :
    Yields (hueLevel p q t) (·.Near 0 (P + (Q - P) * wheel (6 * T)) (13 * m + 92)) := by
  obtain ⟨-, -, -, τ, hτ, herror⟩ := ht
  have htick : tick 0 ≤ 1 / 6 := by norm_num [tick]
  obtain ⟨hlow, hhigh⟩ := abs_le.mp herror
  push_cast at hlow hhigh
  obtain ⟨t', τ', heq, hτ', hturn, hshade⟩ := exists_hueLevel_eq (p := p) (q := q) hτ
    (by linarith) (by linarith)
  rw [heq]
  refine (hueLevel_near hm hp hq hP hQ hτ' hturn).mono fun c hc => ?_
  have hwheel : |wheel (6 * τ) - wheel (6 * T)| ≤ (18 : Nat) * tick 0 := by
    refine (abs_wheel_sub_le _ _).trans ?_
    rw [← mul_sub, abs_mul, abs_of_pos (show (0 : Rat) < 6 by norm_num)]
    push_cast at herror ⊢
    linarith
  have hfar : |shade (6 * τ') - wheel (6 * T)| ≤ (42 : Nat) * tick 0 := by
    refine (abs_sub_le _ (wheel (6 * τ)) _).trans ((add_le_add hshade hwheel).trans_eq ?_)
    push_cast
    ring
  exact hc.shift 42 (abs_between_sub_le hP hQ hfar)
    (abs_between_le hP hQ (abs_le.mpr ⟨by linarith [wheel_nonneg (6 * T)],
      by linarith [wheel_le_one (6 * T)]⟩)) (by omega)

/-! ## Levels -/

variable {s l : Number} {S L : Rat}

theorem upperLevel_near (hs : s.Near 0 S 1) (hl : l.Near 0 L 1) (hS : 0 ≤ S ∧ S ≤ 1)
    (hL : 0 ≤ L ∧ L ≤ 1) : Yields (upperLevel s l) (·.Near 0 (level S L) 12) := by
  obtain ⟨hS0, hS1⟩ := hS
  obtain ⟨hL0, hL1⟩ := hL
  have htick := tick_pos 0
  have hunit {a : Rat} (h0 : 0 ≤ a) (h1 : a ≤ 1) : |a| ≤ ((1 : Nat) : Rat) := by
    rwa [Nat.cast_one, abs_of_nonneg h0]
  have hone : (1 : Number).Near 0 1 0 := near_int 1 (by decide)
  have hhalf : (Number.double (Binary64.ofRat (1 / 2))).Near 0 (1 / 2) 1 :=
    .of_isRounding (Binary64.isRounding_ofRat _) (Nat.zero_le 6) (by norm_num)
  have hsize : |level S L| ≤ 6 * 2 ^ 0 := by
    obtain ⟨h0, h1⟩ := level_mem (z := S) (by rwa [abs_of_nonneg hS0]) ⟨hL0, hL1⟩
    exact abs_le_six (by linarith) (by linarith)
  unfold upperLevel
  split
  · next hlt =>
    have hbelow := hl.sub_le_of_lt hhalf hlt
    push_cast at hbelow
    refine (hone.add hs (abs_le_six (by linarith) (by linarith)) (by norm_num)).bind fun a ha => ?_
    have hfactor : |1 + S| ≤ ((2 : Nat) : Rat) := by
      rw [abs_of_nonneg (by linarith)]
      push_cast
      linarith
    refine (hl.mul ha 1 2 (hunit hL0 hL1) hfactor (by norm_num) (by norm_num)).mono fun c hc => ?_
    refine (hc.shift 4 ?_ hsize (by norm_num)).mono (by norm_num) (by norm_num)
    push_cast
    rcases le_total L (1 / 2) with h | h
    · rw [level_of_le h, show L * (1 + S) - (L + S * L) = 0 by ring, abs_zero]
      linarith
    · rw [level_of_ge h, show L * (1 + S) - (L + S * (1 - L)) = S * (2 * L - 1) by ring,
        abs_of_nonneg (mul_nonneg hS0 (by linarith))]
      exact (mul_le_of_le_one_left (by linarith) hS1).trans (by linarith)
  · next hlt =>
    have habove := hl.sub_le_of_not_lt hhalf hlt
    push_cast at habove
    refine (hl.add hs (abs_le_six (by linarith) (by linarith)) (by norm_num)).bind fun a ha => ?_
    refine (hl.mul hs 1 1 (hunit hL0 hL1) (hunit hS0 hS1) (by norm_num) (by norm_num)).bind
      fun b hb => ?_
    have hproduct0 := mul_nonneg hL0 hS0
    have hproduct1 := mul_le_one₀ hL1 hS0 hS1
    refine (ha.sub hb (abs_le_six (by linarith) (by linarith)) (by norm_num)).mono fun c hc => ?_
    refine (hc.shift 4 ?_ hsize (by norm_num)).mono (by norm_num) (by norm_num)
    push_cast
    rcases le_total L (1 / 2) with h | h
    · rw [level_of_le h, show L + S - L * S - (L + S * L) = S * (1 - 2 * L) by ring,
        abs_of_nonneg (mul_nonneg hS0 (by linarith))]
      exact (mul_le_of_le_one_left (by linarith) hS1).trans (by linarith)
    · rw [level_of_ge h, show L + S - L * S - (L + S * (1 - L)) = 0 by ring, abs_zero]
      linarith

/-- The error of a channel, in levels. -/
def noise : Rat := 2000 * tick 6

theorem noise_lt : noise < 1 / 2 := by norm_num [noise, tick]

/-- The place of each channel on the circle is a third of a turn from the next one, and its level is
the exact one but for the noise. -/
structure HasLevels (S y L : Rat) (c : Color) : Prop where
  red : Channel.IsNearest noise (level (swing S (y + 2)) L * 255) c.red
  green : Channel.IsNearest noise (level (swing S y) L * 255) c.green
  blue : Channel.IsNearest noise (level (swing S (y - 2)) L * 255) c.blue

theorem ofNumber_near_level {n : Number} {k : Nat} (hS : 0 ≤ S ∧ S ≤ 1) (hL : 0 ≤ L ∧ L ≤ 1)
    (y : Rat) (hn : n.Near 0 (level (swing S y) L) k) (hk : k ≤ 330) :
    Yields (n.mul 255) fun x =>
      Yields (Channel.ofNumber x) (Channel.IsNearest noise (level (swing S y) L * 255)) := by
  obtain ⟨h0, h1⟩ := level_mem ((abs_swing_le hS.1 y).trans hS.2) hL
  have hsize : |level (swing S y) L| ≤ 1 := by rwa [abs_of_nonneg h0]
  refine (hn.scale_up (k := 255) (by norm_num) hsize (by omega)).mono fun x hx => ?_
  obtain ⟨-, -, -, v, hv, herror⟩ := hx
  refine Channel.ofNumber_isNearest hv (herror.trans ?_) (by positivity) (by linarith)
  have hcount : ((6 * k + 1 : Nat) : Rat) ≤ 2000 := by exact_mod_cast (by omega : 6 * k + 1 ≤ 2000)
  exact mul_le_mul_of_nonneg_right hcount (tick_pos 6).le

/-- A saturation that is computed as zero leaves every level at the lightness. -/
theorem near_level_of_equals_zero {s l : Number} (hS : 0 ≤ S ∧ S ≤ 1) (hL : 0 ≤ L ∧ L ≤ 1)
    (hs : s.Near 0 S 1) (hl : l.Near 0 L 1) (hzero : s.equals 0 = true) (y : Rat) :
    l.Near 0 (level (swing S y) L) 2 := by
  obtain ⟨-, -, -, v, hv, herror⟩ := hs
  obtain rfl := (equals_iff hv isAt_zero).mp hzero
  rw [zero_sub, abs_neg, abs_of_nonneg hS.1] at herror
  have hswing := abs_swing_le hS.1 y
  obtain ⟨h0, h1⟩ := level_mem (hswing.trans hS.2) hL
  have hflat := abs_level_sub_self_le (swing S y) hL.1 hL.2
  rw [abs_sub_comm] at hflat
  have hsmall : |L - level (swing S y) L| ≤ (1 : Nat) * tick 0 := by
    push_cast at herror ⊢
    linarith
  exact hl.shift 1 hsmall (abs_le_six (by linarith) (by linarith)) (by norm_num)

theorem hueLevel_near_level {t : Number} {T : Rat} (hS : 0 ≤ S ∧ S ≤ 1) (hL : 0 ≤ L ∧ L ≤ 1)
    (hp : p.Near 0 (level (-S) L) 17) (hq : q.Near 0 (level S L) 17) (ht : t.Near 0 T 3)
    (hT : -1 / 3 ≤ T ∧ T ≤ 4 / 3) :
    Yields (hueLevel p q t) (·.Near 0 (level (swing S (6 * T)) L) 313) := by
  have hswing : |S| ≤ 1 := by rw [abs_of_nonneg hS.1]; exact hS.2
  have hresult := hueLevel_near_wheel (by norm_num) hp hq (level_mem (by rwa [abs_neg]) hL)
    (level_mem hswing hL) ht hT
  rwa [level_swing] at hresult

/-- **Levels.** A hue in whole degrees, a saturation and a lightness have the exact levels. -/
theorem ofHsl_hasLevels (h : Int) (s l : Number) : Yields (ofHsl (.int h) s l)
    (HasLevels (fraction s) ((h % 360 : Int) / 60) (fraction l)) := by
  have hS := fraction_mem s
  have hL := fraction_mem l
  have hturn0 := Int.emod_nonneg h (show (360 : Int) ≠ 0 by norm_num)
  have hturn1 := Int.emod_lt_of_pos h (show (0 : Int) < 360 by norm_num)
  obtain ⟨i, hi⟩ : ∃ i, i = h % 360 := ⟨_, rfl⟩
  rw [← hi] at hturn0 hturn1 ⊢
  have hη0 : (0 : Rat) ≤ i / 360 := by positivity
  have hη1 : (i : Rat) / 360 ≤ 1 := by
    rw [div_le_one (by norm_num)]
    exact_mod_cast hturn1.le
  have htwo : (2 : Number).Near 0 2 0 := near_int 2 (by decide)
  unfold ofHsl
  rw [show (Number.int h).modulo 360 = int (h % 360) from rfl, ← hi]
  refine (quotient_near (j := 360) ⟨hturn0, by omega⟩ (by decide)).bind fun hue hhue => ?_
  refine (percentFraction_near s).bind fun saturation hs => ?_
  refine (percentFraction_near l).bind fun lightness hl => ?_
  push_cast at hhue
  split
  · -- without saturation there is no swing to speak of
    next hzero =>
    have hchannel (y : Rat) := ofNumber_near_level hS hL y
      (near_level_of_equals_zero hS hL hs hl hzero y) (by norm_num)
    obtain ⟨x, hx, hr⟩ := hchannel (i / 60 + 2)
    obtain ⟨x', hx', hg⟩ := hchannel (i / 60)
    obtain ⟨x'', hx'', hb⟩ := hchannel (i / 60 - 2)
    obtain rfl := Except.ok.inj (hx.symm.trans hx')
    obtain rfl := Except.ok.inj (hx.symm.trans hx'')
    rw [hx]
    exact (ofNumbers_of_yields hr hg hb).mono fun c hc => ⟨hc.1, hc.2.1, hc.2.2⟩
  have hscale : |fraction l| ≤ ((1 : Nat) : Rat) := by
    rw [Nat.cast_one, abs_of_nonneg hL.1]
    exact hL.2
  refine (upperLevel_near hs hl hS hL).bind fun q hq => ?_
  refine (htwo.mul hl 2 1 (by norm_num) hscale (by norm_num) (by norm_num)).bind fun twice htwice => ?_
  refine (htwice.sub hq ?_ (by norm_num)).bind fun p hp => ?_
  · obtain ⟨h0, h1⟩ := level_mem (z := fraction s) (by rw [abs_of_nonneg hS.1]; exact hS.2) hL
    exact abs_le_six (by linarith [hL.1]) (by linarith [hL.2])
  rw [← level_neg] at hp
  replace hq := hq.mono (n := 17) (by norm_num) (by norm_num)
  have hchannel {t : Number} {T y : Rat} (ht : t.Near 0 T 3) (hT : -1 / 3 ≤ T ∧ T ≤ 4 / 3)
      (hy : 6 * T = y) : Yields (hueLevel p q t) fun r => Yields (r.mul 255) fun x =>
        Yields (Channel.ofNumber x)
          (Channel.IsNearest noise (level (swing (fraction s) y) (fraction l) * 255)) := by
    subst hy
    exact (hueLevel_near_level hS hL hp hq ht hT).mono fun r hr =>
      ofNumber_near_level hS hL _ hr (by norm_num)
  refine (quotient_near (i := 1) (j := 3) (by decide) (by decide)).bind fun third hthird => ?_
  push_cast at hthird
  refine (hhue.add hthird (abs_le_six (by linarith) (by linarith)) (by norm_num)).bind fun x hx => ?_
  refine (hchannel (y := i / 60 + 2) hx ⟨by linarith, by linarith⟩ (by ring)).bind fun r hr => ?_
  refine (hchannel (y := i / 60) (hhue.mono (by norm_num) (by norm_num)) ⟨by linarith, by linarith⟩
    (by ring)).bind fun g hg => ?_
  refine (hhue.sub hthird (abs_le_six (by linarith) (by linarith)) (by norm_num)).bind fun x hx => ?_
  refine (hchannel (y := i / 60 - 2) hx ⟨by linarith, by linarith⟩ (by ring)).bind fun b hb => ?_
  exact hr.bind fun r hr => hg.bind fun g hg => hb.bind fun b hb =>
    (ofNumbers_of_yields hr hg hb).mono fun c hc => ⟨hc.1, hc.2.1, hc.2.2⟩

end CssValues.Color
