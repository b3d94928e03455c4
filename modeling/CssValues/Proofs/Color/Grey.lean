import CssValues.Proofs.Color.Levels
import CssValues.Proofs.Color.Recipe

/-!
# Opposite amounts and greys

To lighten a colour by an amount is to darken it by the opposite one: the two are kept within the
percentages at different ends, but in the end both are kept within both (`Color.ofHsl_min_max`). A
grey has no saturation, so whatever is done to it leaves its channels equal. Main result:
`Color.opposite_amounts_and_greys`.
-/

namespace CssValues

/-! ## Opposite numbers -/

/-- The number with the other sign. -/
def Number.neg : Number → Number
  | .int n => .int (-n)
  | .double x => .double x.neg

namespace Binary64

theorem ofMagnitude_ne_nan (negative : Bool) (q : Rat) : ofMagnitude negative q ≠ nan := by
  rcases ofMagnitude_cases negative q with ⟨_, _, _, h⟩ | h
  · rw [h]
    nofun
  · rw [h]
    nofun

theorem ofRat_ne_nan (q : Rat) : ofRat q ≠ nan := by
  unfold ofRat
  split <;> exact ofMagnitude_ne_nan _ _

/-- A finite number has a sum with everything but NaN. -/
theorem add_ne_nan {x y : Binary64} (hx : x.isFinite = true) (hy : y ≠ nan) : x.add y ≠ nan := by
  cases x with
  | infinite _ => cases hx
  | nan => cases hx
  | finite a m e hm =>
    cases y with
    | nan => exact absurd rfl hy
    | infinite b => exact nofun
    | finite b n f hn =>
      unfold add
      dsimp only
      split
      · exact nofun
      · exact ofRat_ne_nan _

theorem neg_ne_nan {x : Binary64} (h : x ≠ nan) : x.neg ≠ nan := by
  cases x with
  | nan => exact absurd rfl h
  | infinite _ => exact nofun
  | finite _ _ _ _ => exact nofun

end Binary64

namespace Number

variable {a x : Number}

/-- Taking away is adding the opposite. -/
theorem int_sub (k : Int) (a : Number) : (int k).sub a = (int k).add a.neg := by
  cases a with
  | int n => exact congrArg (fun m => Except.ok (int m)) (Int.sub_eq_add_neg (a := k) (b := n))
  | double y => rfl

theorem int_sub_ne_nan {k : Int} (hk : 0 ≤ k ∧ k ≤ 100) (ha : a ≠ .double .nan) :
    Yields ((int k).sub a) (· ≠ .double .nan) := by
  cases a with
  | int n => exact ⟨_, rfl, nofun⟩
  | double y =>
    have hsmall : (int k).Within 0 100 :=
      ⟨by simp, by simp, k, rfl, by exact_mod_cast hk.1, by exact_mod_cast hk.2⟩
    obtain ⟨u, hu, -, -, q, hq, -⟩ := hsmall.toDouble
    have hsub : (int k).sub (.double y) = .ok (.double (u.sub y)) :=
      combine_of_not_int (fun h => not_isInt_double y h.2) hu rfl
    have hy : y ≠ .nan := fun h => ha (congrArg double h)
    have hnan : u.sub y ≠ .nan :=
      Binary64.add_ne_nan (Binary64.exists_isAt_iff.mp ⟨q, hq⟩) (Binary64.neg_ne_nan hy)
    exact ⟨_, hsub, fun h => hnan (Number.double.inj h)⟩

end Number

namespace Color

open Number

/-! ## Opposite amounts -/

theorem ofHsl_min_max (h s : Number) {l : Number} (hl : l ≠ .double .nan) :
    ofHsl h s (Number.min 100 l) = ofHsl h s (Number.max 0 l) :=
  ofHsl_congr h s ((fraction_min l).trans (fraction_max hl).symm)

/-- To darken by an amount is to lighten by the opposite one. -/
theorem lighten_neg (c : Color) {a : Number} (ha : a ≠ .double .nan) :
    c.lighten a.neg = c.darken a := by
  obtain ⟨hsl, hhsl, hl⟩ := toHsl_yields c
  obtain ⟨l, hsub, hne⟩ := int_sub_ne_nan hl ha
  have hadd := (int_sub hsl.lightness a).symm.trans hsub
  have hlighten : c.lighten a.neg
      = ofHsl (.int hsl.hue) (.int hsl.saturation) (Number.min 100 l) := by
    unfold lighten
    rw [hhsl]
    show ((int hsl.lightness).add a.neg >>= _) = _
    rw [hadd]
    rfl
  have hdarken : c.darken a = ofHsl (.int hsl.hue) (.int hsl.saturation) (Number.max 0 l) := by
    unfold darken
    rw [hhsl]
    show ((int hsl.lightness).sub a >>= _) = _
    rw [hsub]
    rfl
  rw [hlighten, hdarken, ofHsl_min_max _ _ hne]

/-! ## Greys -/

/-- A grey has the same level in all channels. -/
def IsGrey (c : Color) : Prop := c.red = c.green ∧ c.green = c.blue

variable {c d : Color}

theorem isGrey_iff : c.IsGrey ↔ ∃ k, c = ⟨k, k, k⟩ := by
  constructor
  · obtain ⟨r, g, b⟩ := c
    rintro ⟨hred, hgreen⟩
    obtain rfl : r = g := hred
    obtain rfl : r = b := hgreen
    exact ⟨r, rfl⟩
  · rintro ⟨k, rfl⟩
    exact ⟨rfl, rfl⟩

theorem ofNumbers_self (n : Number) : Yields (ofNumbers n n n) IsGrey := by
  obtain ⟨k, -, -, -, hn⟩ := ofNumber_yields n
  exact ⟨⟨.ofInt k, .ofInt k, .ofInt k⟩, by rw [ofNumbers, hn]; rfl, rfl, rfl⟩

/-- What is as high as low has no height. -/
theorem equals_sub_self {x : Binary64} (hx : x.isFinite = true) :
    (Number.double (x.sub x)).equals 0 = true := by
  obtain ⟨q, hq⟩ := exists_isAt hx
  have hrounding := Binary64.isRounding_sub hq hq
  rw [sub_self] at hrounding
  obtain ⟨v, hv, hlow, hhigh⟩ :=
    hrounding.between Binary64.isExact_zero Binary64.isExact_zero le_rfl le_rfl
  exact (equals_iff hv isAt_zero).mpr (le_antisymm hhigh hlow)

/-- A grey has neither hue nor saturation. -/
theorem toHsl_of_isGrey (hc : c.IsGrey) : Yields c.toHsl fun hsl =>
    hsl.hue = 0 ∧ hsl.saturation = 0 ∧ 0 ≤ hsl.lightness ∧ hsl.lightness ≤ 100 := by
  obtain ⟨k, rfl⟩ := isGrey_iff.mp hc
  obtain ⟨-, hk, ⟨x, rfl⟩, hshare⟩ := toFraction_yields k
  obtain ⟨-, -, q, hq, -⟩ := hshare.within
  have hmax : (Number.double x).max (.double x) = .double x := ite_self _
  have hmin : (Number.double x).min (.double x) = .double x := ite_self _
  have hzero := equals_sub_self (Binary64.exists_isAt_iff.mp ⟨q, hq⟩)
  unfold toHsl
  rw [hk]
  refine .bind (.ok (p := (· = .double x)) rfl) fun r hr => ?_
  refine .bind (.ok (p := (· = .double x)) rfl) fun g hg => ?_
  refine .bind (.ok (p := (· = .double x)) rfl) fun b hb => ?_
  subst hr hg hb
  dsimp only
  rw [hmax, hmax, hmin, hmin]
  refine .bind (.ok (p := (· = .double (x.sub x))) rfl) fun delta hdelta => ?_
  subst hdelta
  refine (hshare.within.add hshare.within (E := 0) (F := 2)).bind fun sum hsum => ?_
  refine (half_yields hsum (E := 0) (F := 1)).bind fun lightness hlightness => ?_
  rw [if_pos hzero]
  exact (round_yields 100 (i := 0) (j := 100) hlightness).bind fun y hy =>
    hy.bind fun l hl => .ok ⟨rfl, rfl, hl⟩

/-- Without saturation there is grey only. -/
theorem ofHsl_of_saturation_zero (h l : Number) : Yields (ofHsl h 0 l) IsGrey := by
  have hzero : percentFraction 0 = .ok (.double (.zero false)) := by
    show intQuotient 0 100 = _
    simp [intQuotient, Binary64.ofMagnitude_zero, Binary64.zero]
  have hfull : (255 : Number).Converts := converts_ofNat (n := 255) (by decide)
  unfold ofHsl
  rw [hzero]
  refine (turn_yields h).bind fun hue _ => ?_
  refine .bind (.ok (p := (· = .double (.zero false))) rfl) fun saturation hs => ?_
  subst hs
  refine (percentFraction_yields l).bind fun lightness hl => ?_
  rw [if_pos ((equals_iff (Binary64.isAt_zero_double false) isAt_zero).mpr rfl)]
  exact (hl.combine hfull).bind fun level _ => ofNumbers_self level

theorem lighten_of_isGrey (hc : c.IsGrey) (a : Number) : Yields (c.lighten a) IsGrey := by
  unfold lighten
  refine (toHsl_of_isGrey hc).bind fun hsl h => ?_
  obtain ⟨-, hs, hl⟩ := h
  rw [hs]
  exact (combine_lightness hl a).bind fun l _ => ofHsl_of_saturation_zero _ _

theorem darken_of_isGrey (hc : c.IsGrey) (a : Number) : Yields (c.darken a) IsGrey := by
  unfold darken
  refine (toHsl_of_isGrey hc).bind fun hsl h => ?_
  obtain ⟨-, hs, hl⟩ := h
  rw [hs]
  exact (combine_lightness hl a).bind fun l _ => ofHsl_of_saturation_zero _ _

theorem mix_of_isGrey (hc : c.IsGrey) (hd : d.IsGrey) (w : Number) : Yields (c.mix d w) IsGrey := by
  obtain ⟨k, rfl⟩ := isGrey_iff.mp hc
  obtain ⟨m, rfl⟩ := isGrey_iff.mp hd
  obtain ⟨x, hx, -⟩ := mixChannel_yields (isDouble_unitShare w) k m
  unfold mix
  dsimp only
  rw [hx]
  exact ofNumbers_self x

theorem grayscale_isGrey (c : Color) : Yields c.grayscale IsGrey := by
  have hpart (a : Channel) (q : Rat) : Yields (a.toNumber.mul (.double (Binary64.ofRat q))) IsDouble :=
    (converts_toNumber a).combine ⟨_, rfl⟩
  unfold grayscale
  exact (hpart c.red _).bind fun r hr => (hpart c.green _).bind fun g hg =>
    (hpart c.blue _).bind fun b hb => (hr.combine hg.converts).bind fun s hs =>
    (hs.combine hb.converts).bind fun level _ => ofNumbers_self level

theorem invert_isGrey (hc : c.IsGrey) : Yields c.invert IsGrey :=
  ⟨_, invert_eq c, congrArg Fin.rev hc.1, congrArg Fin.rev hc.2⟩

/-- **Opposite amounts and greys.** To lighten by the opposite of an amount is to darken by it, be it
an integer of any size or an infinity. A grey stays grey when it is lightened or darkened by any
number, NaN included, inverted or taken for its brightness, and so do two greys when they are
mixed. -/
theorem opposite_amounts_and_greys :
    (∀ (c : Color) (a : Number), a ≠ .double .nan →
      ∃ d, c.lighten a.neg = .ok d ∧ c.darken a = .ok d)
    ∧ ∀ c : Color, c.IsGrey →
      (∀ a, Yields (c.lighten a) IsGrey ∧ Yields (c.darken a) IsGrey)
      ∧ Yields c.invert IsGrey ∧ Yields c.grayscale IsGrey
      ∧ ∀ d : Color, d.IsGrey → (∀ w, Yields (c.mix d w) IsGrey) ∧ Yields (c.mixEven d) IsGrey := by
  refine ⟨fun c a ha => ?_, fun c hc => ⟨fun a => ?_, invert_isGrey hc, grayscale_isGrey c, ?_⟩⟩
  · obtain ⟨d, hd, -⟩ := darken_yields c a
    exact ⟨d, (lighten_neg c ha).trans hd, hd⟩
  · exact ⟨lighten_of_isGrey hc a, darken_of_isGrey hc a⟩
  · exact fun d hd => ⟨mix_of_isGrey hc hd, mix_of_isGrey hc hd _⟩

/-- A negative infinity, and a grey that is darkened by NaN and mixed with another one. -/
theorem opposite_amounts_and_greys_extremes :
    (∃ d, (Color.ofLevels 1 2 3).lighten (Number.double (.infinite true)).neg = .ok d
      ∧ (Color.ofLevels 1 2 3).darken (.double (.infinite true)) = .ok d)
    ∧ Color.white.IsGrey ∧ Color.black.IsGrey
    ∧ Yields (Color.white.darken (.double .nan)) IsGrey
    ∧ Yields (Color.white.mix .black (.double .nan)) IsGrey := by
  obtain ⟨hamounts, -, hmix⟩ := opposite_amounts_and_greys.2 .white ⟨rfl, rfl⟩
  exact ⟨opposite_amounts_and_greys.1 _ _ nofun, ⟨rfl, rfl⟩, ⟨rfl, rfl⟩, (hamounts _).2,
    (hmix.2 .black ⟨rfl, rfl⟩).1 _⟩

end Color

end CssValues
