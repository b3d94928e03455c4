import CssValues.Proofs.Color.Channel
import CssValues.Proofs.Color.Recipe

/-!
# Blending stays between

A blend of two colours lies between them in every channel whatever the weight is
(`Color.blends_between`): its computation is off the exact blend by less than half a level, and a
blend of halves is exact.
-/

namespace CssValues

/-! ## Weights -/

namespace Number

variable {a b : Number} {p q : Position}

theorem le_of_position (ha : a.position? = some p) (hb : b.position? = some q) :
    a.le b = (p.lt q || p.same q) := by
  simp [le, lt, equals, ha, hb]

theorem le_of_none (h : a.position? = none ∨ b.position? = none) : a.le b = false := by
  rcases h with h | h <;> simp [le, lt, equals, h]

/-- A weight has a place in the unit interval: at or below zero it counts as zero, at or above one
and for NaN as one. -/
theorem isAt_unitShare (w : Number) : ∃ q, w.unitShare.IsAt q ∧ (0 ≤ q ∧ q ≤ 1)
    ∧ (w.le 0 = true → q = 0) ∧ (Number.le 1 w = true ∨ w = .double .nan → q = 1) := by
  have hzero : (Number.double (Binary64.ofInt 0)).IsAt 0 := Binary64.isExact_zero.isAt_ofRat
  have hone : (Number.double (Binary64.ofInt 1)).IsAt 1 := Binary64.isExact_one.isAt_ofRat
  refine ⟨_, isAt_clamp hzero hone zero_le_one w, clamped_mem zero_le_one _, fun h => ?_, fun h => ?_⟩
  · cases hp : w.position? with
    | none => exact absurd h (by simp [le_of_none (.inl hp)])
    | some p =>
      rw [le_of_position hp isAt_zero] at h
      cases p with
      | bottom => rfl
      | top => cases h
      | point q =>
        have hq : q ≤ 0 := by simpa [Position.lt, Position.same, le_iff_lt_or_eq] using h
        exact max_eq_left ((min_le_right _ _).trans hq)
  · cases hp : w.position? with
    | none => rfl
    | some p =>
      rcases h with h | rfl
      · replace h := (le_of_position (isAt_int 1) hp).symm.trans h
        cases p with
        | bottom => cases h
        | top => rfl
        | point q =>
          have hq : 1 ≤ q := by simpa [Position.lt, Position.same, le_iff_lt_or_eq] using h
          show Max.max 0 (Min.min 1 q) = 1
          rw [min_eq_left hq, max_eq_right zero_le_one]
      · cases hp

end Number

open Number

variable {a b k : Channel} {w : Number} {q : Rat}

/-! ## Blends of channels -/

namespace Channel

/-- The channel lies between two others. -/
def IsBetween (a b k : Channel) : Prop := min a b ≤ k ∧ k ≤ max a b

/-- The exact blend of two channels, at the share `q` of the second. -/
def blend (q : Rat) (a b : Channel) : Rat := a.val * (1 - q) + b.val * q

/-- The channel in the middle of two others. -/
def middle (a b : Channel) : Channel := .ofInt (nearestEven ((a.val + b.val) / 2))

theorem middle_comm (a b : Channel) : a.middle b = b.middle a := by
  unfold middle
  rw [add_comm]

theorem blend_zero : blend 0 a b = a.val := by simp [blend]

theorem blend_one : blend 1 a b = b.val := by simp [blend]

theorem min_le_blend (h0 : 0 ≤ q) (h1 : q ≤ 1) : ((min a b).val : Rat) ≤ blend q a b := by
  have ha : ((min a b).val : Rat) ≤ a.val := by exact_mod_cast min_le_left a b
  have hb : ((min a b).val : Rat) ≤ b.val := by exact_mod_cast min_le_right a b
  unfold blend
  nlinarith

theorem blend_le_max (h0 : 0 ≤ q) (h1 : q ≤ 1) : blend q a b ≤ (max a b).val := by
  have ha : (a.val : Rat) ≤ (max a b).val := by exact_mod_cast le_max_left a b
  have hb : (b.val : Rat) ≤ (max a b).val := by exact_mod_cast le_max_right a b
  unfold blend
  nlinarith

theorem near_toNumber (a : Channel) : a.toNumber.Near 6 a.val 0 := by
  refine .of_isAt (isAt_int a.val) le_rfl ?_
  rw [show |(a.val : Rat)| = a.val from abs_of_nonneg (Nat.cast_nonneg _)]
  linarith [val_le a]

/-- A channel between two others is not moved out by a small error. -/
theorem IsNearest.isBetween (h : IsNearest (1 / 4) (blend q a b) k) (h0 : 0 ≤ q) (h1 : q ≤ 1) :
    IsBetween a b k := by
  have hlow := h.le_of_intCast_le (i := (min a b).val) (by norm_num)
    (by rw [Int.cast_natCast]; exact min_le_blend h0 h1)
  have hhigh := h.le_intCast (i := (max a b).val) (by norm_num)
    (by rw [Int.cast_natCast]; exact blend_le_max h0 h1)
  exact ⟨Fin.le_def.mpr (by omega), Fin.le_def.mpr (by omega)⟩

end Channel

namespace Color

open Channel (IsNearest blend)
open Binary64 (IsExact)

theorem mixChannel_near (hw : w.IsAt q) (h0 : 0 ≤ q) (h1 : q ≤ 1) (a b : Channel) :
    Yields (mixChannel w a b) (·.Near 6 (blend q a b) 260) := by
  have habs {r B : Rat} (hlow : 0 ≤ r) (hhigh : r ≤ B) : |r| ≤ B := by rwa [abs_of_nonneg hlow]
  have hsize {r : Rat} (hlow : 0 ≤ r) (hhigh : r ≤ 255) : |r| ≤ 6 * 2 ^ 6 :=
    habs hlow (by linarith)
  have hrest : 0 ≤ 1 - q := by linarith
  have hshare {r : Rat} (c : Channel) (hlow : 0 ≤ r) (hhigh : r ≤ 1) :
      0 ≤ c.val * r ∧ c.val * r ≤ 255 * r := by
    exact ⟨mul_nonneg (Nat.cast_nonneg _) hlow, mul_le_mul_of_nonneg_right c.val_le hlow⟩
  obtain ⟨hx0, hx1⟩ := hshare a hrest (by linarith)
  obtain ⟨hy0, hy1⟩ := hshare b h0 h1
  have hone : (1 : Number).Near 6 1 0 := .of_isAt (isAt_int 1) le_rfl (hsize zero_le_one (by norm_num))
  have hweight : w.Near 6 q 0 := .of_isAt hw le_rfl (hsize h0 (by linarith))
  unfold mixChannel
  refine (hone.sub hweight (hsize hrest (by linarith)) (by norm_num)).bind fun rest hrest' => ?_
  refine (a.near_toNumber.mul hrest' 255 1 (habs (Nat.cast_nonneg _) a.val_le)
    (by rw [Nat.cast_one]; exact habs hrest (by linarith)) (by norm_num) (by norm_num)).bind
    fun x hx => ?_
  refine (b.near_toNumber.mul hweight 255 1 (habs (Nat.cast_nonneg _) b.val_le)
    (by rw [Nat.cast_one]; exact habs h0 h1) (by norm_num) (by norm_num)).bind fun y hy => ?_
  exact hx.add hy (hsize (by linarith) (by linarith)) (by norm_num)

theorem mixChannel_isNearest (hw : w.IsAt q) (h0 : 0 ≤ q) (h1 : q ≤ 1) (a b : Channel) :
    Yields (mixChannel w a b) fun n =>
      Yields (Channel.ofNumber n) (IsNearest (1 / 4) (blend q a b)) := by
  refine (mixChannel_near hw h0 h1 a b).mono fun n hn => ?_
  obtain ⟨-, -, -, v, hv, herror⟩ := hn
  have hmin := Channel.min_le_blend (a := a) (b := b) h0 h1
  have hmax := Channel.blend_le_max (a := a) (b := b) h0 h1
  exact Channel.ofNumber_isNearest hv (herror.trans (by norm_num [tick]))
    ((Nat.cast_nonneg _).trans hmin) (hmax.trans (max a b).val_le)

/-! ## Blends of colours -/

/-- Every channel of the colour lies between those of two others. -/
structure IsBetween (c d e : Color) : Prop where
  red : Channel.IsBetween c.red d.red e.red
  green : Channel.IsBetween c.green d.green e.green
  blue : Channel.IsBetween c.blue d.blue e.blue

theorem eq_of_channels {c e : Color} (hr : e.red = c.red) (hg : e.green = c.green)
    (hb : e.blue = c.blue) : e = c := by
  obtain ⟨r, g, b⟩ := c
  obtain ⟨r', g', b'⟩ := e
  exact congrArg₂ (fun f b => f b) (congrArg₂ mk hr hg) hb

theorem IsBetween.eq {c e : Color} (h : IsBetween c c e) : e = c := by
  have hchannel {a k : Channel} (h : Channel.IsBetween a a k) : k = a := by
    obtain ⟨hlow, hhigh⟩ := h
    rw [min_self] at hlow
    rw [max_self] at hhigh
    exact le_antisymm hhigh hlow
  exact eq_of_channels (hchannel h.red) (hchannel h.green) (hchannel h.blue)

/-- The colour is nearest to the exact blend of two others. -/
structure IsBlend (q : Rat) (c d e : Color) : Prop where
  red : IsNearest (1 / 4) (blend q c.red d.red) e.red
  green : IsNearest (1 / 4) (blend q c.green d.green) e.green
  blue : IsNearest (1 / 4) (blend q c.blue d.blue) e.blue

theorem mix_isBlend (hw : w.unitShare.IsAt q) (h0 : 0 ≤ q) (h1 : q ≤ 1) (c d : Color) :
    Yields (c.mix d w) (IsBlend q c d) := by
  have hchannel := mixChannel_isNearest hw h0 h1
  unfold mix
  refine (hchannel _ _).bind fun r hr => (hchannel _ _).bind fun g hg =>
    (hchannel _ _).bind fun b hb => ?_
  exact (ofNumbers_of_yields hr hg hb).mono fun e h => ⟨h.1, h.2.1, h.2.2⟩

namespace IsBlend

variable {c d e : Color}

theorem isBetween (h : IsBlend q c d e) (h0 : 0 ≤ q) (h1 : q ≤ 1) : IsBetween c d e :=
  ⟨h.red.isBetween h0 h1, h.green.isBetween h0 h1, h.blue.isBetween h0 h1⟩

theorem eq_first (h : IsBlend 0 c d e) : e = c := by
  have hchannel {a b k : Channel} (h : IsNearest (1 / 4) (blend 0 a b) k) : k = a :=
    (Channel.blend_zero ▸ h).eq_of_intCast (by norm_num)
  exact eq_of_channels (hchannel h.red) (hchannel h.green) (hchannel h.blue)

theorem eq_second (h : IsBlend 1 c d e) : e = d := by
  have hchannel {a b k : Channel} (h : IsNearest (1 / 4) (blend 1 a b) k) : k = b :=
    (Channel.blend_one ▸ h).eq_of_intCast (by norm_num)
  exact eq_of_channels (hchannel h.red) (hchannel h.green) (hchannel h.blue)

end IsBlend

/-! ## Halves -/

/-- Halves of channels are doubles, and so are sums of two of them. -/
theorem mixChannel_half (hw : w.IsAt (1 / 2)) (a b : Channel) :
    Yields (mixChannel w a b) (·.IsAt ((a.val + b.val) / 2)) := by
  have hexact (n : Nat) (hn : n < 2 ^ 53) : IsExact ((n : Rat) / 2) := by
    simpa using Binary64.isExact_div_two_pow (k := 1) hn (by norm_num)
  have hhalf : IsExact (1 / 2 : Rat) := by simp
  have hproduct (c : Channel) {n : Number} (hn : n.IsAt (1 / 2)) :
      Yields (c.toNumber.mul n) (·.IsAt (c.val / 2)) := by
    have hvalue : ((c.val : Int) : Rat) * (1 / 2) = c.val / 2 := by rw [Int.cast_natCast]; ring
    rw [← hvalue]
    refine (isAt_int c.val).combine_exact hn Int.cast_mul Binary64.isRounding_mul ?_ hhalf ?_
    · simpa using Binary64.isExact_div_two_pow (n := c.val) (k := 0) (by omega) (by norm_num)
    · rw [hvalue]
      exact hexact _ (by omega)
  have hrest : Yields ((1 : Number).sub w) (·.IsAt (1 / 2)) := by
    have hvalue : ((1 : Int) : Rat) - 1 / 2 = 1 / 2 := by norm_num
    rw [← hvalue]
    exact (isAt_int 1).combine_exact hw Int.cast_sub Binary64.isRounding_sub (by simp) hhalf
      (by rw [hvalue]; exact hhalf)
  unfold mixChannel
  refine hrest.bind fun rest hrest => (hproduct a hrest).bind fun x hx =>
    (hproduct b hw).bind fun y hy => ?_
  rw [add_div]
  refine hx.combine_exact hy Int.cast_add Binary64.isRounding_add (hexact _ (by omega))
    (hexact _ (by omega)) ?_
  have hsum := hexact (a.val + b.val) (by omega)
  rwa [Nat.cast_add, add_div] at hsum

theorem isAt_unitShare_half : (Number.double (Binary64.ofRat (1 / 2))).unitShare.IsAt (1 / 2) := by
  have hhalf : (Number.double (Binary64.ofRat (1 / 2))).IsAt (1 / 2) :=
    IsExact.isAt_ofRat (by simp)
  have hshare := isAt_max Binary64.isExact_zero.isAt_ofRat
    (isAt_min Binary64.isExact_one.isAt_ofRat hhalf)
  rwa [min_eq_right (by norm_num), max_eq_right (by norm_num)] at hshare

theorem mixEven_eq (c d : Color) : c.mixEven d = .ok
    ⟨c.red.middle d.red, c.green.middle d.green, c.blue.middle d.blue⟩ := by
  have hchannel (a b : Channel) : Yields (mixChannel
      (Number.double (Binary64.ofRat (1 / 2))).unitShare a b)
      fun n => Yields (Channel.ofNumber n) (· = a.middle b) := by
    refine (mixChannel_half isAt_unitShare_half a b).mono fun n hn =>
      ⟨_, Channel.ofNumber_of_isAt hn, ?_⟩
    have ha := a.val_le
    have hb := b.val_le
    rw [min_eq_right (by linarith), max_eq_right (by positivity)]
    rfl
  have heven : Yields (c.mixEven d) fun e => e.red = c.red.middle d.red
      ∧ e.green = c.green.middle d.green ∧ e.blue = c.blue.middle d.blue := by
    unfold mixEven mix
    exact (hchannel _ _).bind fun r hr => (hchannel _ _).bind fun g hg =>
      (hchannel _ _).bind fun b hb => ofNumbers_of_yields hr hg hb
  obtain ⟨e, he, hred, hgreen, hblue⟩ := heven
  exact he.trans (congrArg Except.ok (eq_of_channels hred hgreen hblue))

/-- **Blending.** Whatever the weight is, NaN and the infinities included, two colours have a blend,
and every channel of it lies between theirs. At or below the weight zero it is the first colour, and
at or above one and for NaN the second. The even blend does not depend on the order. To invert a colour
counts each of its channels from the other end, and to do so twice gives it back. -/
theorem blends_between :
    (∀ (c d : Color) (w : Number), ∃ e, c.mix d w = .ok e ∧ IsBetween c d e
      ∧ (w.le 0 = true → e = c) ∧ (Number.le 1 w = true ∨ w = .double .nan → e = d))
    ∧ (∀ (c : Color) (w : Number), c.mix c w = .ok c)
    ∧ (∀ c d : Color, ∃ e, c.mixEven d = .ok e ∧ d.mixEven c = .ok e)
    ∧ ∀ c : Color, ∃ d, c.invert = .ok d ∧ d.invert = .ok c
      ∧ d.red.val = 255 - c.red.val ∧ d.green.val = 255 - c.green.val
      ∧ d.blue.val = 255 - c.blue.val := by
  have hmix (c d : Color) (w : Number) : ∃ e, c.mix d w = .ok e ∧ IsBetween c d e
      ∧ (w.le 0 = true → e = c) ∧ (Number.le 1 w = true ∨ w = .double .nan → e = d) := by
    obtain ⟨q, hq, ⟨h0, h1⟩, hfirst, hsecond⟩ := isAt_unitShare w
    obtain ⟨e, he, hblend⟩ := mix_isBlend hq h0 h1 c d
    refine ⟨e, he, hblend.isBetween h0 h1, fun h => ?_, fun h => ?_⟩
    · obtain rfl := hfirst h
      exact hblend.eq_first
    · obtain rfl := hsecond h
      exact hblend.eq_second
  refine ⟨hmix, fun c w => ?_, fun c d => ?_, fun c => ?_⟩
  · obtain ⟨e, he, hbetween, -⟩ := hmix c c w
    rw [he, hbetween.eq]
  · refine ⟨_, mixEven_eq c d, ?_⟩
    rw [mixEven_eq, c.red.middle_comm, c.green.middle_comm, c.blue.middle_comm]
  · have hback := invert_eq ⟨c.red.rev, c.green.rev, c.blue.rev⟩
    simp only [Fin.rev_rev] at hback
    exact ⟨_, invert_eq c, hback, val_rev _, val_rev _, val_rev _⟩

/-- The weights beyond the ends, and NaN. -/
theorem blends_between_ends :
    Color.black.mix .white (.double (.infinite true)) = .ok .black
    ∧ Color.black.mix .white 2 = .ok .white
    ∧ Color.black.mix .white (.double .nan) = .ok .white := by
  have hends := blends_between.1 .black .white
  obtain ⟨e, he, -, hfirst, -⟩ := hends (.double (.infinite true))
  obtain ⟨f, hf, -, -, hsecond⟩ := hends 2
  obtain ⟨g, hg, -, -, hnan⟩ := hends (.double .nan)
  exact ⟨hfirst rfl ▸ he, hsecond (.inl rfl) ▸ hf, hnan (.inr rfl) ▸ hg⟩

end Color

end CssValues
