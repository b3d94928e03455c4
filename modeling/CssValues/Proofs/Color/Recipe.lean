import CssValues.Color.Blend
import CssValues.Proofs.Color.Hex
import CssValues.Proofs.Color.Hsl

/-!
# Colours made from colours

Whatever numbers it is made from and however it is adjusted, a colour can be made, and its channels
are shares of the whole (`Color.Recipe.makes`). No step on the way fails.
-/

namespace CssValues.Color

open Number

/-! ## Steps -/

theorem ofEntries_yields {channels : Entries Number}
    (h : ∀ name ∈ [['r'], ['g'], ['b']], (channels.get? name).isSome) :
    Yields (ofEntries channels) fun _ => True := by
  have hchannel {name : Text} (hname : name ∈ [['r'], ['g'], ['b']]) :
      Yields (channelIn channels name) fun _ => True := by
    obtain ⟨n, hn⟩ := Option.isSome_iff_exists.mp (h name hname)
    exact ⟨n, by rw [channelIn, hn], trivial⟩
  unfold ofEntries
  refine (hchannel (by simp)).bind fun r _ => (hchannel (by simp)).bind fun g _ =>
    (hchannel (by simp)).bind fun b _ => ?_
  obtain ⟨c, hc, -⟩ := ofNumbers_yields r g b
  exact ⟨c, by rw [hc, orFault_ok], trivial⟩

/-- Integers are added exactly, and a small one has a double to be added to a double. -/
theorem combine_lightness {onInt : Int → Int → Int}
    {onDouble : Binary64 → Binary64 → Binary64} {k : Int} (hk : 0 ≤ k ∧ k ≤ 100) (amount : Number) :
    Yields (combine onInt onDouble (.int k) amount) fun _ => True := by
  cases amount with
  | int n => exact ⟨_, rfl, trivial⟩
  | double x =>
    have hsmall : (int k).Within 0 100 :=
      ⟨by simp, by simp, k, rfl, by exact_mod_cast hk.1, by exact_mod_cast hk.2⟩
    exact (hsmall.converts.combine ⟨x, rfl⟩).mono fun _ _ => trivial

theorem lighten_yields (c : Color) (amount : Number) : Yields (c.lighten amount) fun _ => True := by
  unfold lighten
  exact (toHsl_yields c).bind fun hsl hl => (combine_lightness hl amount).bind fun l _ =>
    ofHsl_yields _ _ _

theorem darken_yields (c : Color) (amount : Number) : Yields (c.darken amount) fun _ => True := by
  unfold darken
  exact (toHsl_yields c).bind fun hsl hl => (combine_lightness hl amount).bind fun l _ =>
    ofHsl_yields _ _ _

/-- No integer lies strictly within the unit interval. -/
theorem isDouble_unitShare (n : Number) : n.unitShare.IsDouble := by
  have hends {k : Int} (hk : Binary64.IsExact k) : (Number.double (Binary64.ofInt k)).IsAt k :=
    hk.isAt_ofRat
  cases n with
  | double x => exact max_of_both ⟨_, rfl⟩ (min_of_both ⟨_, rfl⟩ ⟨_, rfl⟩)
  | int k =>
    unfold unitShare
    by_cases hbelow : (Number.int k).lt (.double (Binary64.ofInt 1)) = true
    · have hlt := (lt_iff (isAt_int k) (hends (by simp))).mp hbelow
      have hnot : ¬(Number.double (Binary64.ofInt 0)).lt (.int k) = true := fun habove => by
        have hgt := (lt_iff (hends (by simp)) (isAt_int k)).mp habove
        rw [Int.cast_lt] at hlt hgt
        omega
      have hmin : Number.min (.double (Binary64.ofInt 1)) (.int k) = .int k := if_pos hbelow
      rw [hmin]
      exact ⟨_, if_neg hnot⟩
    · have hmin : Number.min (.double (Binary64.ofInt 1)) (.int k) = .double (Binary64.ofInt 1) :=
        if_neg hbelow
      rw [hmin]
      exact max_of_both ⟨_, rfl⟩ ⟨_, rfl⟩

theorem converts_toNumber (c : Channel) : c.toNumber.Converts :=
  converts_ofNat (n := c.val) (by omega)

theorem mixChannel_yields {w : Number} (hw : w.IsDouble) (a b : Channel) :
    Yields (mixChannel w a b) IsDouble := by
  unfold mixChannel
  exact ((converts_ofNat (n := 1) (by norm_num)).combine hw).bind fun rest hrest =>
    ((converts_toNumber a).combine hrest).bind fun x hx =>
    ((converts_toNumber b).combine hw).bind fun y hy => hx.combine hy.converts

theorem mix_yields (c d : Color) (weight : Number) : Yields (c.mix d weight) fun _ => True := by
  have hw := isDouble_unitShare weight
  unfold mix
  exact (mixChannel_yields hw _ _).bind fun r _ => (mixChannel_yields hw _ _).bind fun g _ =>
    (mixChannel_yields hw _ _).bind fun b _ => ofNumbers_yields r g b

theorem grayscale_yields (c : Color) : Yields c.grayscale fun _ => True := by
  have hpart (a : Channel) (q : Rat) : Yields (a.toNumber.mul (.double (Binary64.ofRat q))) IsDouble :=
    (converts_toNumber a).combine ⟨_, rfl⟩
  unfold grayscale
  exact (hpart c.red _).bind fun r hr => (hpart c.green _).bind fun g hg =>
    (hpart c.blue _).bind fun b hb => (hr.combine hg.converts).bind fun s hs =>
    (hs.combine hb.converts).bind fun level _ => ofNumbers_yields level level level

theorem val_rev (a : Channel) : (Fin.rev a).val = 255 - a.val := by
  rw [Fin.val_rev]
  omega

/-- To invert a colour is to count its levels from the other end. -/
theorem invert_eq (c : Color) : c.invert = .ok ⟨c.red.rev, c.green.rev, c.blue.rev⟩ := by
  have hchannel (a : Channel) : Number.sub 255 a.toNumber = .ok (Channel.toNumber a.rev) := by
    have hrev : ((Fin.rev a).val : Int) = 255 - a.val := by
      rw [val_rev]
      omega
    rw [Channel.toNumber, Channel.toNumber, hrev]
    rfl
  unfold invert
  rw [hchannel, hchannel, hchannel]
  exact ofNumbers_toNumber ⟨c.red.rev, c.green.rev, c.blue.rev⟩

theorem toFractions_yields (c : Color) : Yields c.toFractions fun shares =>
    ∃ r g b : Number, shares = [(['r'], .number r), (['g'], .number g), (['b'], .number b)]
      ∧ r.Within 0 1 ∧ g.Within 0 1 ∧ b.Within 0 1 := by
  unfold toFractions
  exact (toFraction_yields c.red).bind fun r hr => (toFraction_yields c.green).bind fun g hg =>
    (toFraction_yields c.blue).bind fun b hb =>
    .ok ⟨r, g, b, rfl, hr.2.within, hg.2.within, hb.2.within⟩

/-! ## Recipes -/

/-- How a colour is made from numbers, step by step. -/
inductive Recipe where
  | ofNumbers (r g b : Number)
  | ofEntries (channels : Entries Number)
      (h : ∀ name ∈ [['r'], ['g'], ['b']], (channels.get? name).isSome)
  | ofHsl (h s l : Number)
  | lighten (base : Recipe) (amount : Number)
  | darken (base : Recipe) (amount : Number)
  | mix (first second : Recipe) (weight : Number)
  | mixEven (first second : Recipe)
  | invert (base : Recipe)
  | grayscale (base : Recipe)

namespace Recipe

/-- Make the colour, the colours it is made from first. -/
def make : Recipe → Except Error Color
  | ofNumbers r g b => orFault (Color.ofNumbers r g b)
  | ofEntries channels _ => Color.ofEntries channels
  | ofHsl h s l => orFault (Color.ofHsl h s l)
  | lighten base amount => do orFault ((← base.make).lighten amount)
  | darken base amount => do orFault ((← base.make).darken amount)
  | mix first second weight => do orFault ((← first.make).mix (← second.make) weight)
  | mixEven first second => do orFault ((← first.make).mixEven (← second.make))
  | invert base => do orFault (← base.make).invert
  | grayscale base => do orFault (← base.make).grayscale

theorem make_yields (recipe : Recipe) : Yields recipe.make fun _ => True := by
  have hfault {r : Except Fault Color} (h : Yields r fun _ => True) :
      Yields (orFault r) fun _ => True := by
    obtain ⟨c, rfl, -⟩ := h
    exact ⟨c, rfl, trivial⟩
  induction recipe with
  | ofNumbers r g b => exact hfault (ofNumbers_yields r g b)
  | ofEntries channels h => exact ofEntries_yields h
  | ofHsl h s l => exact hfault (ofHsl_yields h s l)
  | lighten base amount ih => exact ih.bind fun c _ => hfault (lighten_yields c amount)
  | darken base amount ih => exact ih.bind fun c _ => hfault (darken_yields c amount)
  | mix first second weight ih₁ ih₂ =>
    exact ih₁.bind fun c _ => ih₂.bind fun d _ => hfault (mix_yields c d weight)
  | mixEven first second ih₁ ih₂ =>
    exact ih₁.bind fun c _ => ih₂.bind fun d _ => hfault (mix_yields c d _)
  | invert base ih => exact ih.bind fun c _ => hfault ⟨_, invert_eq c, trivial⟩
  | grayscale base ih => exact ih.bind fun c _ => hfault (grayscale_yields c)

/-- **Every recipe makes a colour.** A number of any kind, NaN and the infinities included, is
rounded to an integer from 0 to 255, which is the channel. The channels of every colour that is made
on the way, and at the end, are numbers from 0 to 1 when they are taken as shares of the whole. -/
theorem makes : (∀ n : Number, ∃ k : Int, (Number.max 0 (Number.min 255 n)).round = .ok k
      ∧ 0 ≤ k ∧ k ≤ 255 ∧ Channel.ofNumber n = .ok (.ofInt k) ∧ ((Channel.ofInt k).val : Int) = k)
    ∧ ∀ recipe : Recipe, ∃ c, recipe.make = .ok c ∧ ∃ r g b : Number,
      c.toFractions = .ok [(['r'], .number r), (['g'], .number g), (['b'], .number b)]
        ∧ r.Within 0 1 ∧ g.Within 0 1 ∧ b.Within 0 1 := by
  constructor
  · intro n
    obtain ⟨k, hk, hlow, hhigh, hchannel⟩ := ofNumber_yields n
    refine ⟨k, hk, hlow, hhigh, hchannel, ?_⟩
    have hlevel : (Channel.ofInt k).val = k.toNat := Nat.min_eq_left (by omega)
    omega
  · intro recipe
    obtain ⟨c, hc, -⟩ := make_yields recipe
    obtain ⟨shares, hshares, r, g, b, rfl, hbounds⟩ := toFractions_yields c
    exact ⟨c, hc, r, g, b, hshares, hbounds⟩

end Recipe

end CssValues.Color
