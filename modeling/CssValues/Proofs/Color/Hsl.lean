import CssValues.Color.Hsl
import CssValues.Proofs.Number.Interval
import CssValues.Proofs.Unit

/-!
# Hue, saturation and lightness are always there

Every three numbers denote a colour (`Color.ofHsl_yields`): the levels that it is computed from are
doubles, and these are rounded whatever they are. Every colour has a hue, a saturation and a
lightness (`Color.toHsl_yields`): on the way back no divisor is zero, and no quotient is too large
to be rounded.
-/

namespace CssValues.Color

open Number

/-! ## Channels -/

/-- Every number denotes a channel, and not because integers out of range count as the ends. -/
theorem ofNumber_yields (n : Number) : ∃ k : Int, (Number.max 0 (Number.min 255 n)).round = .ok k
    ∧ 0 ≤ k ∧ k ≤ 255 ∧ Channel.ofNumber n = .ok (.ofInt k) := by
  have hclamp : (Number.max 0 (Number.min 255 n)).Within (0 : Int) (255 : Int) :=
    within_clamp (isAt_int 0) (isAt_int 255) n (by norm_num) (by simp) (by simp)
  obtain ⟨k, hk, hlow, hhigh⟩ := hclamp.round
  exact ⟨k, hk, hlow, hhigh, by rw [Channel.ofNumber, hk]; rfl⟩

theorem ofNumbers_yields (r g b : Number) : Yields (ofNumbers r g b) fun _ => True := by
  obtain ⟨i, -, -, -, hr⟩ := ofNumber_yields r
  obtain ⟨j, -, -, -, hg⟩ := ofNumber_yields g
  obtain ⟨k, -, -, -, hb⟩ := ofNumber_yields b
  exact ⟨⟨.ofInt i, .ofInt j, .ofInt k⟩, by rw [ofNumbers, hr, hg, hb]; rfl, trivial⟩

/-! ## From hue, saturation and lightness -/

/-- The integers in the formulas are small. -/
theorem converts_ofNat {n : Nat} (h : n ≤ 360) : (int n).Converts :=
  (within_ofNat (A := 0) (B := 360) (by positivity) (by exact_mod_cast h) (by simp)
    (by simp)).converts

theorem div_yields {a : Number} {A : Rat} {n : Nat} (ha : a.Within 0 A) (hA : A ≤ 360)
    (hn : 0 < n ∧ n ≤ 360) : Yields (a.div (int n)) IsDouble := by
  have hdivisor : (int n).Within 1 360 :=
    within_ofNat (by exact_mod_cast hn.1) (by exact_mod_cast hn.2) (by simp) (by simp)
  have hrange (p q : Rat) (hp : 0 ≤ p) (hp' : p ≤ A) (hq : 1 ≤ q) (_ : q ≤ 360) :
      0 ≤ p / q ∧ p / q ≤ 360 := by
    have hpos : 0 < q := by linarith
    exact ⟨div_nonneg hp hpos.le, (div_le_iff₀ hpos).mpr (by nlinarith)⟩
  exact (ha.div hdivisor hrange one_pos (by simp) (by simp)).mono fun _ h => h.1

theorem quotient_yields {m n : Nat} (h : m ≤ 360 ∧ 0 < n ∧ n ≤ 360) :
    Yields ((int m).div (int n)) IsDouble :=
  div_yields (within_ofNat (B := 360) (by positivity) (by exact_mod_cast h.1) (by simp) (by simp))
    le_rfl h.2

theorem percentFraction_yields (n : Number) : Yields (percentFraction n) IsDouble := by
  have hclamp : (Number.max 0 (Number.min 100 n)).Within 0 100 :=
    within_clamp (isAt_int 0) (isAt_int 100) n (by norm_num) (by simp) (by simp)
  exact div_yields hclamp (by norm_num) (n := 100) (by decide)

theorem turn_yields (h : Number) : Yields ((h.modulo 360).div 360) IsDouble := by
  cases h with
  | int n =>
    have hmod : (int (n % 360)).Within 0 360 := by
      refine ⟨by simp, by simp, ((n % 360 : Int) : Rat), rfl, ?_, ?_⟩
      · exact_mod_cast Int.emod_nonneg n (by norm_num)
      · exact_mod_cast (Int.emod_lt_of_pos n (by norm_num)).le
    exact div_yields hmod le_rfl (n := 360) (by decide)
  | double x =>
    have hdouble : ((Number.double x).modulo 360).IsDouble := by
      cases x with
      | finite negative m e hfits =>
        unfold modulo
        dsimp only
        split
        · exact ⟨_, rfl⟩
        · exact ⟨_, rfl⟩
      | infinite negative => exact ⟨_, rfl⟩
      | nan => exact ⟨_, rfl⟩
    obtain ⟨y, hy⟩ := hdouble
    rw [hy]
    exact ⟨_, double_div_int (k := 360) (by simp) (by decide) y, _, rfl⟩

theorem hueLevel_yields {p q t : Number} (hp : p.IsDouble) (hq : q.IsDouble) (ht : t.IsDouble) :
    Yields (hueLevel p q t) IsDouble := by
  have hone : (1 : Number).Converts := converts_ofNat (n := 1) (by decide)
  have hsix : (6 : Number).Converts := converts_ofNat (n := 6) (by decide)
  have hthirds : Yields ((2 : Number).div 3) IsDouble := quotient_yields (m := 2) (n := 3) (by decide)
  unfold hueLevel
  refine .ite_bind (p := IsDouble) (ht.combine hone) (.ok ht) fun t ht => ?_
  refine .ite_bind (p := IsDouble) (ht.combine hone) (.ok ht) fun t ht => ?_
  refine (quotient_yields (m := 1) (n := 6) (by decide)).bind fun sixth _ => ?_
  split
  · exact (hq.combine hp.converts).bind fun a ha => (ha.combine hsix).bind fun b hb =>
      (hb.combine ht.converts).bind fun c hc => hp.combine hc.converts
  refine (quotient_yields (m := 1) (n := 2) (by decide)).bind fun half _ => ?_
  split
  · exact .ok hq
  refine hthirds.bind fun third _ => ?_
  split
  · exact (hq.combine hp.converts).bind fun a ha => hthirds.bind fun b hb =>
      (hb.combine ht.converts).bind fun c hc => (ha.combine hc.converts).bind fun d hd =>
      (hd.combine hsix).bind fun e he => hp.combine he.converts
  · exact .ok hp

theorem upperLevel_yields {s l : Number} (hs : s.IsDouble) (hl : l.IsDouble) :
    Yields (upperLevel s l) IsDouble := by
  unfold upperLevel
  split
  · exact ((converts_ofNat (n := 1) (by decide)).combine hs).bind fun a ha => hl.combine ha.converts
  · exact (hl.combine hs.converts).bind fun a ha => (hl.combine hs.converts).bind fun b hb =>
      ha.combine hb.converts

/-- **Every three numbers denote a colour.** -/
theorem ofHsl_yields (h s l : Number) : Yields (ofHsl h s l) fun _ => True := by
  have hfull : (255 : Number).Converts := converts_ofNat (n := 255) (by decide)
  unfold ofHsl
  refine (turn_yields h).bind fun hue hhue => (percentFraction_yields s).bind fun saturation hs =>
    (percentFraction_yields l).bind fun lightness hl => ?_
  split
  · exact (hl.combine hfull).bind fun level _ => ofNumbers_yields level level level
  refine (upperLevel_yields hs hl).bind fun q hq => ?_
  refine ((converts_ofNat (n := 2) (by decide)).combine hl).bind fun twice htwice => ?_
  refine (htwice.combine hq.converts).bind fun p hp => ?_
  refine (quotient_yields (m := 1) (n := 3) (by decide)).bind fun third hthird => ?_
  exact (hhue.combine hthird.converts).bind fun x hx => (hueLevel_yields hp hq hx).bind fun r hr =>
    (hueLevel_yields hp hq hhue).bind fun g hg => (hhue.combine hthird.converts).bind fun y hy =>
    (hueLevel_yields hp hq hy).bind fun b hb => (hr.combine hfull).bind fun r _ =>
    (hg.combine hfull).bind fun g _ => (hb.combine hfull).bind fun b _ => ofNumbers_yields r g b

/-! ## Shares of the whole -/

/-- The share of a channel: none, all, or neither nearly none nor nearly all. -/
inductive IsShare (a : Number) : Prop where
  | none (h : a.Within 0 0)
  | some (h : a.Within (1 / 256) (255 / 256))
  | all (h : a.Within 1 1)

theorem toFraction_yields (c : Channel) : Yields c.toFraction fun a => a.IsDouble ∧ IsShare a := by
  have hdiv {A B E F : Rat} (hc : c.toNumber.Within A B) (hE : Binary64.IsExact E)
      (hF : Binary64.IsExact F) (hlow : E ≤ A / 255) (hhigh : B / 255 ≤ F) :
      Yields c.toFraction fun a => a.IsDouble ∧ a.Within E F := by
    refine hc.div (within_ofNat (n := 255) (A := 255) (B := 255)) (fun p q hp hp' hq hq' => ?_)
    obtain rfl : q = 255 := le_antisymm hq' hq
    exact ⟨by linarith, by linarith⟩
  have hrange {m n : Nat} (hm : Binary64.IsExact m) (hn : Binary64.IsExact n) (hlow : m ≤ c.val)
      (hhigh : c.val ≤ n) : c.toNumber.Within m n :=
    within_ofNat (by exact_mod_cast hlow) (by exact_mod_cast hhigh)
  rcases Nat.eq_zero_or_pos c.val with hzero | hpos
  · have hnone := hrange (m := 0) (n := 0) (by simp) (by simp) (by omega) (by omega)
    exact (hdiv (E := 0) (F := 0) hnone (by simp) (by simp) (by norm_num)
      (by norm_num)).mono fun a h => ⟨h.1, .none h.2⟩
  by_cases hfull : c.val = 255
  · have hall := hrange (m := 255) (n := 255) (by simp) (by simp) (by omega)
      (by omega)
    exact (hdiv (E := 1) (F := 1) hall (by simp) (by simp) (by norm_num)
      (by norm_num)).mono fun a h => ⟨h.1, .all h.2⟩
  · have hsome := hrange (m := 1) (n := 254) (by simp) (by simp) (by omega)
      (by omega)
    exact (hdiv (E := 1 / 256) (F := 255 / 256) hsome (by simp) (by simp)
      (by norm_num) (by norm_num)).mono fun a h => ⟨h.1, .some h.2⟩

theorem IsShare.within {a : Number} (h : IsShare a) : a.Within 0 1 := by
  cases h with
  | none h => exact h.widen
  | some h => exact h.widen
  | all h => exact h.widen

/-- Of two different shares the smaller one is not all, and the larger one is not none. -/
theorem IsShare.within_of_lt {a b : Number} {p q : Rat} (ha : IsShare a) (hb : IsShare b)
    (hp : a.IsAt p) (hq : b.IsAt q) (h : p < q) :
    a.Within 0 (255 / 256) ∧ b.Within (1 / 256) 1 := by
  obtain ⟨hp0, -⟩ := ha.within.bounds hp
  obtain ⟨-, hq1⟩ := hb.within.bounds hq
  constructor
  · cases ha with
    | none h => exact h.widen
    | some h => exact h.widen
    | all h =>
      have := (h.bounds hp).1
      linarith
  · cases hb with
    | none h =>
      have := (h.bounds hq).2
      linarith
    | some h => exact h.widen
    | all h => exact h.widen

/-! ## To hue, saturation and lightness -/

theorem scale_yields {a : Number} {A B E F : Rat} (n : Nat) (ha : a.Within A B)
    (hlow : E ≤ A * n := by norm_num) (hhigh : B * n ≤ F := by norm_num)
    (hn : Binary64.IsExact n := by first | assumption | simp)
    (hE : Binary64.IsExact E := by first | assumption | simp)
    (hF : Binary64.IsExact F := by first | assumption | simp) :
    Yields (a.mul (int n)) (·.Within E F) := by
  refine ha.mul (within_ofNat le_rfl le_rfl) fun p q hp hp' hq hq' => ?_
  obtain rfl : q = n := le_antisymm hq' hq
  have hn0 : (0 : Rat) ≤ n := by positivity
  exact ⟨hlow.trans (mul_le_mul_of_nonneg_right hp hn0),
    (mul_le_mul_of_nonneg_right hp' hn0).trans hhigh⟩

/-- A share of the whole, rounded to a number of its parts. -/
theorem round_yields {a : Number} {A B : Rat} {i j : Int} (n : Nat) (ha : a.Within A B)
    (hlow : i ≤ A * n := by norm_num) (hhigh : B * n ≤ j := by norm_num)
    (hn : Binary64.IsExact n := by first | assumption | simp)
    (hi : Binary64.IsExact i := by first | assumption | simp)
    (hj : Binary64.IsExact j := by first | assumption | simp) :
    Yields (a.mul (int n)) fun x => Yields x.round fun k => i ≤ k ∧ k ≤ j :=
  (scale_yields n ha hlow hhigh).mono fun _ hx => hx.round

theorem half_yields {a : Number} {A B E F : Rat} (ha : a.Within A B)
    (hlow : 2 * E ≤ A := by norm_num) (hhigh : B ≤ 2 * F := by norm_num)
    (hE : Binary64.IsExact E := by first | assumption | simp)
    (hF : Binary64.IsExact F := by first | assumption | simp) :
    Yields (a.div 2) (·.Within E F) := by
  have htwo : (2 : Number).Within 2 2 := within_ofNat (n := 2)
  refine (ha.div htwo fun p q hp hp' hq hq' => ?_).mono fun _ h => h.2
  obtain rfl : q = 2 := le_antisymm hq' hq
  exact ⟨by linarith, by linarith⟩

/-- A lightness that is not at an end is less than one away from the middle. -/
theorem distance_yields {lightness : Number} (h : lightness.Within (1 / 512) (511 / 512)) :
    Yields ((2 : Number).mul lightness) fun twice => Yields (twice.sub 1) fun offset =>
      Yields ((1 : Number).sub offset.abs) (·.Within (1 / 256) 1) := by
  have hone : (1 : Number).Within 1 1 := within_ofNat (n := 1)
  have htwo : (2 : Number).Within 2 2 := within_ofNat (n := 2)
  have htwice : Yields ((2 : Number).mul lightness) (·.Within (1 / 256) (511 / 256)) := by
    refine htwo.mul h fun p q hp hp' hq hq' => ?_
    obtain rfl : p = 2 := le_antisymm hp' hp
    exact ⟨by linarith, by linarith⟩
  refine htwice.mono fun twice h => ?_
  exact (h.sub hone (E := -(255 / 256)) (F := 255 / 256)).mono fun offset h => hone.sub h.abs

/-- Where three channels, the highest and the lowest one of them, and the difference of these two
stand on the number line. -/
structure Levels (x y z h l : Binary64) where
  (X Y Z H L d : Rat)
  atX : (Number.double x).IsAt X
  atY : (Number.double y).IsAt Y
  atZ : (Number.double z).IsAt Z
  high : (Number.double h).IsAt H
  low : (Number.double l).IsAt L
  delta : (Number.double (h.sub l)).IsAt d
  nonneg : 0 ≤ L
  le_one : H ≤ 1
  memX : L ≤ X ∧ X ≤ H
  memY : L ≤ Y ∧ Y ≤ H
  memZ : L ≤ Z ∧ Z ≤ H

namespace Levels

variable {x y z h l : Binary64}

theorem le (s : Levels x y z h l) : s.L ≤ s.H := s.memX.1.trans s.memX.2

theorem within_delta (s : Levels x y z h l) {E F : Rat} (hlow : E ≤ s.H - s.L)
    (hhigh : s.H - s.L ≤ F) (hE : Binary64.IsExact E := by simp)
    (hF : Binary64.IsExact F := by simp) : (Number.double (h.sub l)).Within E F :=
  ⟨hE, hF, (Binary64.isRounding_sub s.high s.low).between hE hF hlow hhigh⟩

theorem within_unit (s : Levels x y z h l) : (Number.double (h.sub l)).Within 0 1 :=
  s.within_delta (by linarith [s.le]) (by linarith [s.nonneg, s.le_one])

/-- Equal levels have no difference. -/
theorem delta_eq_zero (s : Levels x y z h l) (hsame : s.H ≤ s.L) : s.d = 0 := by
  have hnone : (Number.double (h.sub l)).Within 0 0 :=
    s.within_delta (by linarith [s.le]) (by linarith)
  obtain ⟨h0, h1⟩ := hnone.bounds s.delta
  exact le_antisymm h1 h0

/-- The difference of two levels is at most that of the highest and the lowest one. -/
theorem sub_within (s : Levels x y z h l) {u v : Binary64} {U V : Rat}
    (hu : (Number.double u).IsAt U) (hv : (Number.double v).IsAt V) (hU : s.L ≤ U ∧ U ≤ s.H)
    (hV : s.L ≤ V ∧ V ≤ s.H) : (Number.double (u.sub v)).Within (-s.d) s.d := by
  have hwhole := Binary64.isRounding_sub s.high s.low
  have hpart := Binary64.isRounding_sub hu hv
  have h0 := s.nonneg
  have h1 := s.le_one
  obtain ⟨w, hw, -, -⟩ := hpart.between (p := -1) (q := 1) (by simp) (by simp)
    (by linarith) (by linarith)
  refine ⟨⟨_, Binary64.isAt_neg s.delta⟩, ⟨_, s.delta⟩, w, hw, ?_, ?_⟩
  · exact hwhole.neg.mono hpart (Binary64.isAt_neg s.delta) hw (by linarith)
  · exact hpart.mono hwhole hw s.delta (by linarith)

/-- A difference of two levels as a share of the whole difference, moved by sixths of a turn. -/
theorem sextant_yields (s : Levels x y z h l) (hpos : 0 < s.d) {u v : Binary64} {U V : Rat}
    (hu : (Number.double u).IsAt U) (hv : (Number.double v).IsAt V) (hU : s.L ≤ U ∧ U ≤ s.H)
    (hV : s.L ≤ V ∧ V ≤ s.H) {k : Number} (hk : k.Within 0 6) :
    Yields (do
      let n ← (Number.double u).sub (.double v)
      let q ← n.div (.double (h.sub l))
      let sum ← q.add k
      sum.div 6) (·.Within (-1) 2) := by
  have hdelta : (Number.double (h.sub l)).Within s.d s.d :=
    ⟨⟨_, s.delta⟩, ⟨_, s.delta⟩, s.d, s.delta, le_rfl, le_rfl⟩
  have hsix : (6 : Number).Within 6 6 := within_ofNat (n := 6)
  have hsub := s.sub_within hu hv hU hV
  refine Yields.bind (p := (·.Within (-s.d) s.d)) ⟨_, rfl, hsub⟩ fun n hn => ?_
  refine (hn.div hdelta (E := -1) (F := 1) (fun p q hp hp' hq hq' => ?_) hpos).bind fun q hq => ?_
  · obtain rfl : q = s.d := le_antisymm hq' hq
    exact ⟨(le_div_iff₀ hpos).mpr (by linarith), (div_le_iff₀ hpos).mpr (by linarith)⟩
  refine (hq.2.add hk (E := -1) (F := 7)).bind fun sum hsum => ?_
  refine (hsum.div hsix fun p q hp hp' hq hq' => ?_).mono fun _ h => h.2
  obtain rfl : q = 6 := le_antisymm hq' hq
  exact ⟨by linarith, by linarith⟩

theorem hueFraction_yields (s : Levels x y z h l) (hpos : 0 < s.d) :
    Yields (hueFraction (.double x) (.double y) (.double z) (.double h) (.double (h.sub l)))
      (·.Within (-1) 2) := by
  have hturn {n : Nat} (hn : n ≤ 6) : (int n).Within 0 6 :=
    within_ofNat (by positivity) (by exact_mod_cast hn)
  unfold hueFraction
  split
  · refine s.sextant_yields hpos s.atY s.atZ s.memY s.memZ ?_
    split
    · exact hturn (n := 6) le_rfl
    · exact hturn (n := 0) (by norm_num)
  split
  · exact s.sextant_yields hpos s.atZ s.atX s.memZ s.memX (hturn (n := 2) (by norm_num))
  · exact s.sextant_yields hpos s.atX s.atY s.memX s.memY (hturn (n := 4) (by norm_num))

/-- The highest and the lowest of three shares are shares. -/
theorem exists_of_shares (hx : IsShare (.double x)) (hy : IsShare (.double y))
    (hz : IsShare (.double z)) : ∃ h l, IsShare (.double h) ∧ IsShare (.double l)
      ∧ ((Number.double x).max (.double y)).max (.double z) = .double h
      ∧ ((Number.double x).min (.double y)).min (.double z) = .double l
      ∧ Nonempty (Levels x y z h l) := by
  let IsLevel (a : Number) : Prop := a.IsDouble ∧ IsShare a
  have hr : IsLevel (.double x) := ⟨⟨_, rfl⟩, hx⟩
  have hg : IsLevel (.double y) := ⟨⟨_, rfl⟩, hy⟩
  have hb : IsLevel (.double z) := ⟨⟨_, rfl⟩, hz⟩
  obtain ⟨⟨h, hhigh⟩, hh⟩ := max_of_both (p := IsLevel) (max_of_both hr hg) hb
  obtain ⟨⟨l, hlow⟩, hl⟩ := min_of_both (p := IsLevel) (min_of_both hr hg) hb
  obtain ⟨-, -, X, hX, -, -⟩ := hx.within
  obtain ⟨-, -, Y, hY, -, -⟩ := hy.within
  obtain ⟨-, -, Z, hZ, -, -⟩ := hz.within
  have hH := isAt_max (isAt_max hX hY) hZ
  have hL := isAt_min (isAt_min hX hY) hZ
  rw [hhigh] at hH hh
  rw [hlow] at hL hl
  obtain ⟨hL0, -⟩ := hl.within.bounds hL
  obtain ⟨-, hH1⟩ := hh.within.bounds hH
  have hrounding := Binary64.isRounding_sub hH hL
  have hle : Min.min (Min.min X Y) Z ≤ Max.max (Max.max X Y) Z :=
    (min_le_right _ Z).trans (le_max_right _ Z)
  obtain ⟨d, hd, -, -⟩ := hrounding.between (p := 0) (q := 1) (by simp) (by simp)
    (by linarith) (by linarith)
  exact ⟨h, l, hh, hl, hhigh, hlow, ⟨{
    X, Y, Z, d, H := _, L := _, atX := hX, atY := hY, atZ := hZ, high := hH, low := hL, delta := hd
    nonneg := hL0, le_one := hH1
    memX := ⟨min_le_of_left_le (min_le_left X Y), le_max_of_le_left (le_max_left X Y)⟩
    memY := ⟨min_le_of_left_le (min_le_right X Y), le_max_of_le_left (le_max_right X Y)⟩
    memZ := ⟨min_le_right _ Z, le_max_right _ Z⟩ }⟩⟩

end Levels

/-- **Every colour has a hue, a saturation and a lightness.** -/
theorem toHsl_yields (c : Color) :
    Yields c.toHsl fun hsl => 0 ≤ hsl.lightness ∧ hsl.lightness ≤ 100 := by
  have hpercent {a : Number} (ha : a.Within 0 1) : Yields (a.mul 100) fun x =>
      Yields x.round fun k => 0 ≤ k ∧ k ≤ 100 := round_yields 100 (i := 0) (j := 100) ha
  unfold toHsl
  refine (toFraction_yields c.red).bind fun r hr => (toFraction_yields c.green).bind fun g hg =>
    (toFraction_yields c.blue).bind fun b hb => ?_
  obtain ⟨⟨x, rfl⟩, hx⟩ := hr
  obtain ⟨⟨y, rfl⟩, hy⟩ := hg
  obtain ⟨⟨z, rfl⟩, hz⟩ := hb
  obtain ⟨h, l, hh, hl, hhigh, hlow, ⟨s⟩⟩ := Levels.exists_of_shares hx hy hz
  dsimp only
  rw [hhigh, hlow]
  refine Yields.bind (p := (· = Number.double (h.sub l))) ⟨_, rfl, rfl⟩ fun delta hdelta => ?_
  subst hdelta
  have hequal : (Number.double (h.sub l)).equals 0 = true ↔ s.d = 0 := equals_iff s.delta isAt_zero
  by_cases hlt : s.L < s.H
  · obtain ⟨hlowIn, hhighIn⟩ := hl.within_of_lt hh s.low s.high hlt
    refine (hhighIn.add hlowIn (E := 1 / 256) (F := 511 / 256)).bind fun sum hsum => ?_
    refine (half_yields hsum (E := 1 / 512) (F := 511 / 512)).bind fun lightness hlightness => ?_
    have hround := hpercent hlightness.widen
    split
    · exact hround.bind fun x hx => hx.bind fun k hk => .ok hk
    next hdiffer =>
    have hpos : 0 < s.d :=
      lt_of_le_of_ne (s.within_unit.bounds s.delta).1 fun hzero => hdiffer (hequal.mpr hzero.symm)
    refine (distance_yields hlightness).bind fun twice h => h.bind fun offset h =>
      h.bind fun rest hrest => ?_
    refine (s.within_unit.div hrest (E := 0) (F := 256) fun p q hp hp' hq hq' => ?_).bind
      fun saturation hsaturation => ?_
    · have hq0 : 0 < q := by linarith
      exact ⟨div_nonneg hp hq0.le, (div_le_iff₀ hq0).mpr (by linarith)⟩
    refine (s.hueFraction_yields hpos).bind fun hue hhue => ?_
    refine (round_yields 360 (i := -360) (j := 720) hhue).bind fun x hx => hx.bind fun _ _ => ?_
    refine (round_yields 100 (i := 0) (j := 25600) hsaturation.2).bind fun y hy =>
      hy.bind fun _ _ => ?_
    exact hround.bind fun x hx => hx.bind fun k hk => .ok hk
  · -- all levels are equal
    refine (hh.within.add hl.within (E := 0) (F := 2)).bind fun sum hsum => ?_
    refine (half_yields hsum (E := 0) (F := 1)).bind fun lightness hlightness => ?_
    rw [if_pos (hequal.mpr (s.delta_eq_zero (not_lt.mp hlt)))]
    exact (hpercent hlightness).bind fun x hx => hx.bind fun k hk => .ok hk

end CssValues.Color
