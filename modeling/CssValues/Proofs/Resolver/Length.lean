import CssValues.Proofs.Number.Interval
import CssValues.Proofs.Resolver.Agreement

/-!
# Lengths that are too large

A length resolves to its size in the context, but it is refused where its size in the default
context is beyond the doubles, whatever the context is. The refusal is never noticed in a context
whose factor of the unit is at least the default one: what overflows there by default overflows in
the context too (`LengthUnit.isFinite_of_factor_le`). Main result: `Resolver.size_length`.
-/

namespace CssValues

/-! ## Overflow -/

theorem abs_div_le {v w : Rat} (hw : 1 ≤ w) : |v / w| ≤ |v| := by
  rw [abs_div]
  exact div_le_self (abs_nonneg v) (hw.trans (le_abs_self w))

namespace Binary64

variable {x y : Binary64} {v w z : Rat}

theorem IsRounding.isFinite_iff (h : IsRounding z x) : x.isFinite = true ↔ |z| < overflow := by
  constructor
  · intro hx
    by_contra hlarge
    obtain ⟨negative, rfl, -⟩ := h
    rw [ofMagnitude_of_overflow negative (not_lt.mp hlarge)] at hx
    cases hx
  · intro hz
    exact exists_isAt_iff.mp (h.exists_isAt hz)

/-- Rounding gives no NaN. -/
theorem IsRounding.exists_infinite (h : IsRounding z x) (hlarge : x.isFinite = false) :
    ∃ negative, x = .infinite negative := by
  obtain ⟨negative, rfl, -⟩ := h
  rcases ofMagnitude_cases negative |z| with ⟨_, _, _, heq⟩ | heq
  · rw [heq] at hlarge
    cases hlarge
  · exact ⟨negative, heq⟩

/-- What is infinite stays so when it is divided. -/
theorem exists_infinite_div (hx : ∃ negative, x = .infinite negative) (hy : y.isFinite = true) :
    ∃ negative, x.div y = .infinite negative := by
  obtain ⟨negative, rfl⟩ := hx
  cases y with
  | finite sign m e h => exact ⟨_, rfl⟩
  | infinite sign => cases hy
  | nan => cases hy

/-- Division by one or more neither helps nor hurts. -/
theorem isFinite_div (hy : (Number.double y).IsAt w) (hw : 1 ≤ w) :
    (x.div y).isFinite = x.isFinite := by
  cases x with
  | finite negative m e h =>
    have hx := Number.isAt_finite negative h
    exact (isRounding_div hx hy).isFinite_iff.mpr
      ((abs_div_le hw).trans_lt (IsExact.lt_overflow ⟨_, hx⟩))
  | infinite negative =>
    obtain ⟨_, _, _, _, rfl, -⟩ := isAt_double.mp hy
    rfl
  | nan =>
    obtain ⟨_, _, _, _, rfl, -⟩ := isAt_double.mp hy
    rfl

end Binary64

/-- A number is taken as a double by rounding it. -/
theorem Number.isRounding_toDouble {n : Number} {q : Rat} {x : Binary64} (h : n.IsAt q)
    (hx : n.toDouble = .ok x) : Binary64.IsRounding q x := by
  cases n with
  | int n =>
    obtain rfl : (n : Rat) = q := by cases h; rfl
    have hofInt : Binary64.ofInt n = x := by
      cases hn : Binary64.ofInt n <;> rw [toDouble, hn] at hx <;> cases hx <;> rfl
    exact hofInt ▸ isRounding_ofInt n
  | double y =>
    cases hx
    exact Binary64.isRounding_self h

theorem Number.exists_isAt_toDouble {n : Number} {x : Binary64} (h : n.hasFiniteDouble = true)
    (hx : n.toDouble = .ok x) : ∃ q, (double x).IsAt q := by
  rw [hasFiniteDouble, hx] at h
  exact exists_isAt h

theorem Number.le_iff {a b : Number} {p q : Rat} (ha : a.IsAt p) (hb : b.IsAt q) :
    a.le b = true ↔ p ≤ q := by
  rw [le, Bool.or_eq_true, lt_iff ha hb, equals_iff ha hb, le_iff_lt_or_eq]

/-! ## Sizes of a unit -/

namespace LengthUnit

variable {c d : Context} {u : LengthUnit} {x y z : Binary64}

/-- The divisors are one or more. -/
theorem exists_isAt_divisor {n : Number} {d : Binary64} (h : u.divisor? = some n)
    (hd : n.toDouble = .ok d) : ∃ w, (Number.double d).IsAt w ∧ 1 ≤ w := by
  obtain ⟨q, hq, hexact, hle⟩ : ∃ q, n.IsAt q ∧ Binary64.IsExact q ∧ 1 ≤ q := by
    rcases divisor?_cases h with rfl | rfl
    · exact ⟨2, rfl, by simp, by norm_num⟩
    · exact ⟨100, rfl, by simp, by norm_num⟩
  obtain ⟨w, hw, hlow, -⟩ :=
    (Number.isRounding_toDouble hq hd).between Binary64.isExact_one hexact hle le_rfl
  exact ⟨w, hw, hlow⟩

/-- The size of a double is finite just if its product with the factor is, and infinite if that is. -/
theorem exists_product (u : LengthUnit) (c : Context) (x : Binary64) :
    ∃ f y : Binary64, (u.factor c).toDouble = .ok f ∧ u.toPixels (.double x) c = .ok (.double y)
      ∧ y.isFinite = (x.mul f).isFinite
      ∧ ((∃ negative, x.mul f = .infinite negative) → ∃ negative, y = .infinite negative) := by
  obtain ⟨s, hf, hdivisor, hs⟩ := u.exists_scale c
  refine ⟨s.factor, s.apply x, hf, hs x, ?_⟩
  unfold Scale.apply
  split
  · next d hd =>
    obtain ⟨n, hn, hnd⟩ := hdivisor d hd
    obtain ⟨w, hw, hle⟩ := exists_isAt_divisor hn hnd
    exact ⟨Binary64.isFinite_div hw hle,
      fun h => Binary64.exists_infinite_div h (Binary64.exists_isAt_iff.mp ⟨w, hw⟩)⟩
  · exact ⟨rfl, id⟩

/-- What is finite for one factor is finite for a smaller one. -/
theorem isFinite_of_factor_le (hx : x.isFinite = true)
    (hy : u.toPixels (.double x) c = .ok (.double y))
    (hz : u.toPixels (.double x) d = .ok (.double z))
    (hle : (u.factor d).le (u.factor c) = true) (hfinite : y.isFinite = true) :
    z.isFinite = true := by
  obtain ⟨f, y', hf, hy', hyiff, -⟩ := u.exists_product c x
  obtain ⟨g, z', hg, hz', hziff, -⟩ := u.exists_product d x
  obtain rfl : y' = y := by simpa [hy'] using hy
  obtain rfl : z' = z := by simpa [hz'] using hz
  obtain ⟨p, hp, -⟩ := Number.exists_isAt_of_isDimension (u.isDimension_factor c)
  obtain ⟨q, hq, hpos⟩ := Number.exists_isAt_of_isDimension (u.isDimension_factor d)
  obtain ⟨v, hv⟩ := Number.exists_isAt hx
  obtain ⟨w, hw⟩ := Number.exists_isAt_toDouble (u.factor_hasFiniteDouble c) hf
  obtain ⟨r, hr⟩ := Number.exists_isAt_toDouble (u.factor_hasFiniteDouble d) hg
  have hzero := Binary64.isRounding_self (Binary64.isAt_zero_double false)
  have hrw : r ≤ w := (Number.isRounding_toDouble hq hg).mono (Number.isRounding_toDouble hp hf)
    hr hw ((Number.le_iff hq hp).mp hle)
  have hr0 : 0 ≤ r :=
    hzero.mono (Number.isRounding_toDouble hq hg) (Binary64.isAt_zero_double false) hr hpos.le
  rw [hyiff, (Binary64.isRounding_mul hv hw).isFinite_iff] at hfinite
  rw [hziff, (Binary64.isRounding_mul hv hr).isFinite_iff]
  calc |v * r| = |v| * r := by rw [abs_mul, abs_of_nonneg hr0]
    _ ≤ |v| * w := mul_le_mul_of_nonneg_left hrw (abs_nonneg v)
    _ = |v * w| := by rw [abs_mul, abs_of_nonneg (hr0.trans hrw)]
    _ < Binary64.overflow := hfinite

end LengthUnit

/-! ## Written lengths -/

namespace Quantity

variable {q : Quantity} {s : Sign} {t : Text} {u : LengthUnit} {x : Binary64}

/-- A number is no calculation. -/
theorem IsWritten.isValid_eq_false (h : q.IsWritten s t) : CalcSource.isValid t = false := by
  rw [← Bool.not_eq_true]
  intro hvalid
  obtain ⟨body, hbody⟩ := Option.isSome_iff_exists.mp hvalid
  obtain ⟨c, more, htext, -, hletter⟩ := s.exists_text_cons q.literal
  have ht := (CalcSource.body?_eq_some hbody).1
  rw [h, text, ← List.append_assoc, htext] at ht
  obtain rfl : c = 'c' := (List.cons.inj ht).1
  exact absurd hletter (by decide)

/-- A length is no percentage. -/
theorem IsWritten.read_percentage (h : q.IsWritten s t) (hunit : q.unit = .length u) :
    ∃ why, Percentage.read t = .error why := by
  cases hp : Percentage.read t with
  | error why => exact ⟨why, rfl⟩
  | ok p =>
    obtain ⟨s', q', -, hq', hpercent, -⟩ := Percentage.read_eq_ok_iff.mp hp
    obtain ⟨-, rfl⟩ := h.unique hq'
    rw [hunit] at hpercent
    cases hpercent

/-- A length is read where its size in the default context is finite. -/
theorem IsWritten.toOption_read_length (h : q.IsWritten s t) (hunit : q.unit = .length u)
    (hx : Binary64.readFinite? (s.text ++ q.literal.text) = some x) {z : Binary64}
    (hz : u.toPixels (.double x) .default = .ok (.double z)) : (Length.read t).toOption
      = if z.isFinite then some ⟨.double x, u, Binary64.isFinite_of_readFinite? hx⟩ else none := by
  cases hfinite : z.isFinite with
  | true =>
    rw [Length.read_eq_ok_iff (l := ⟨.double x, u, Binary64.isFinite_of_readFinite? hx⟩) |>.mpr
      ⟨s, q, x, z, h, hunit, hx, rfl, hz, hfinite⟩]
    rfl
  | false =>
    cases hl : Length.read t with
    | error why => rfl
    | ok l =>
      obtain ⟨s', q', x', z', hq', hunit', hx', hvalue, hz', hfinite'⟩ :=
        Length.read_eq_ok_iff.mp hl
      obtain ⟨rfl, rfl⟩ := h.unique hq'
      obtain rfl : x = x' := Option.some.inj (hx.symm.trans hx')
      obtain ⟨value, u', hvalueFinite⟩ := l
      obtain rfl : value = .double x := hvalue
      obtain rfl : u = u' := TermUnit.length.inj (hunit.symm.trans hunit')
      have hzz : z = z' := by simpa [Length.toPixels, hz] using hz'
      rw [hzz, hfinite'] at hfinite
      cases hfinite

end Quantity

namespace Resolver

variable {q : Quantity} {s : Sign} {t : Text} {u : LengthUnit} {x : Binary64}

/-- **Lengths.** A written length has its size in the context for its size in pixels, if that is
finite and its size in the default context is so too, and else none. The default context makes no
difference where its factor of the unit is not above the one of the context. -/
theorem size_length (c : Context) (hq : q.IsWritten s t) (hunit : q.unit = .length u)
    (hx : Binary64.IsNearest s.isMinus q.literal.magnitude x) :
    ∃ y z : Binary64, u.toPixels (.double x) c = .ok (.double y)
      ∧ u.toPixels (.double x) .default = .ok (.double z)
      ∧ (attempt (size c t)).result
        = .ok (if y.isFinite && z.isFinite then some (.pixels (.double y)) else none)
      ∧ ((u.factor .default).le (u.factor c) = true → y.isFinite = true → z.isFinite = true) := by
  obtain ⟨-, y, -, hy, -⟩ := u.exists_product c x
  obtain ⟨-, z, -, hz, -⟩ := u.exists_product .default x
  refine ⟨y, z, hy, hz, ?_, fun hle => LengthUnit.isFinite_of_factor_le hx.isFinite hy hz hle⟩
  have hvalid := hq.isValid_eq_false
  obtain ⟨why, hp⟩ := hq.read_percentage hunit
  have hl := hq.toOption_read_length hunit ((q.literal.readFinite?_text_iff s).mpr hx) hz
  rw [(answers_size c t).result_attempt, toOption_size_of_not_valid hvalid, hp]
  dsimp only
  rw [toOption_pixels_of_not_valid hvalid, hl]
  cases z.isFinite with
  | false =>
    rw [Bool.and_false]
    rfl
  | true =>
    simp only [if_true, Option.bind_some, Bool.and_true, Length.toPixels, hy,
      toOption_finite (Number.isFinite_double y)]
    cases y.isFinite <;> rfl

/-- A context with a font of one pixel. -/
def smallFont : Context where
  viewportWidth := Context.default.viewportWidth
  viewportHeight := Context.default.viewportHeight
  fontSize := ⟨1, LengthUnit.px.isDimension_factor .default⟩

theorem exists_read_large : ∃ (s : Sign) (q : Quantity) (x : Binary64),
    q.IsWritten s "1e308em".toList ∧ q.unit = .length .em
      ∧ Binary64.IsNearest s.isMinus q.literal.magnitude x
      ∧ Binary64.readFinite? "1e308".toList = some x := by
  have hsplit : splitNumber? (Text.trim "1e308em".toList)
      = some ("1e308".toList, LengthUnit.em.name) := by decide +kernel
  obtain ⟨s, q, hq, hunit, hnumber⟩ :=
    Quantity.exists_isWritten hsplit (TermUnit.isWritten_name (.length .em))
  obtain ⟨x, hx⟩ := Option.isSome_iff_exists.mp
    (by decide +kernel : (Binary64.readFinite? "1e308".toList).isSome = true)
  rw [← hnumber] at hx
  exact ⟨s, q, x, hq, hunit, (q.literal.readFinite?_text_iff s).mp hx, hnumber ▸ hx⟩

/-- The size of the number in the two contexts. -/
theorem isFinite_large : (Binary64.readFinite? "1e308".toList).map (fun x =>
    (((LengthUnit.em.toPixels (.double x) smallFont).bind Number.isFinite).toOption,
      ((LengthUnit.em.toPixels (.double x) .default).bind Number.isFinite).toOption))
    = some (some true, some false) := by
  decide +kernel

/-- The font of the context would keep the length small, and it is refused for the default font. -/
theorem size_length_small_font : ∃ (s : Sign) (q : Quantity) (x y z : Binary64),
    q.IsWritten s "1e308em".toList ∧ q.unit = .length .em
      ∧ Binary64.IsNearest s.isMinus q.literal.magnitude x
      ∧ LengthUnit.em.toPixels (.double x) smallFont = .ok (.double y) ∧ y.isFinite = true
      ∧ LengthUnit.em.toPixels (.double x) .default = .ok (.double z) ∧ z.isFinite = false
      ∧ (attempt (size smallFont "1e308em".toList)).result = .ok none := by
  obtain ⟨s, q, x, hq, hunit, hx, hread⟩ := exists_read_large
  obtain ⟨y, z, hy, hz, hsize, -⟩ := size_length smallFont hq hunit hx
  have hboth := isFinite_large
  rw [hread, Option.map_some, hy, hz] at hboth
  obtain ⟨hyfinite, hzfinite⟩ : y.isFinite = true ∧ z.isFinite = false := by
    simpa [Except.bind, Except.toOption, Number.isFinite_double] using hboth
  rw [hyfinite, hzfinite] at hsize
  exact ⟨s, q, x, y, z, hq, hunit, hx, hy, hyfinite, hz, hzfinite, hsize⟩

/-- Not every length has its size in the context, however small that is. -/
theorem size_length_refused :
    ¬∀ (c : Context) (s : Sign) (q : Quantity) (u : LengthUnit) (t : Text) (x y : Binary64),
      q.IsWritten s t → q.unit = .length u → Binary64.IsNearest s.isMinus q.literal.magnitude x →
        u.toPixels (.double x) c = .ok (.double y) → (attempt (size c t)).result
          = .ok (if y.isFinite then some (.pixels (.double y)) else none) := by
  intro h
  obtain ⟨s, q, x, hq, hunit, hx, hread⟩ := exists_read_large
  obtain ⟨-, y, -, hy, -⟩ := LengthUnit.em.exists_product smallFont x
  have hboth := isFinite_large
  rw [hread, Option.map_some, hy] at hboth
  have hyfinite : y.isFinite = true := by
    have hfirst := congrArg (Option.map Prod.fst) hboth
    simpa [Except.bind, Except.toOption, Number.isFinite_double] using hfirst
  have hclaim := h smallFont s q .em "1e308em".toList x y hq hunit hx hy
  have hnone : (size smallFont "1e308em".toList).toOption.isSome = false := by decide +kernel
  rw [hyfinite, if_pos rfl, (answers_size _ _).result_attempt, Except.ok.injEq] at hclaim
  rw [hclaim] at hnone
  cases hnone

end Resolver

end CssValues
