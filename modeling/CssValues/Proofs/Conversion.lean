import CssValues.Proofs.Resolver.Length

/-!
# Conversion to pixels

A length has no size in pixels just if that would be a quotient of integers beyond the doubles
(`Length.QuotientOverflows`), and its size is infinite just if it comes from a product of doubles
beyond them (`Length.ProductOverflows`); otherwise its size is finite. A calculation that was read
has a size always, and one that makes a length just if both terms and their sum or difference are
within the doubles (`CalcExpression.InRange`). Main result: `conversion_cases`.
-/

namespace CssValues

/-! ## Sums of doubles -/

namespace Binary64

variable {x y : Binary64}

/-- A sum is finite only if its terms are. -/
theorem isFinite_of_add (h : (x.add y).isFinite = true) :
    x.isFinite = true ∧ y.isFinite = true := by
  cases x with
  | finite a m e hx =>
    cases y with
    | finite b n f hy => exact ⟨rfl, rfl⟩
    | infinite b => cases h
    | nan => cases h
  | infinite a =>
    cases y with
    | finite b n f hy => cases h
    | infinite b => by_cases hsame : a = b <;> simp [add, isFinite, hsame] at h
    | nan => cases h
  | nan => cases y <;> cases h

theorem isFinite_neg (x : Binary64) : x.neg.isFinite = x.isFinite := by cases x <;> rfl

theorem isFinite_of_sub (h : (x.sub y).isFinite = true) :
    x.isFinite = true ∧ y.isFinite = true := by
  rw [← isFinite_neg y]
  exact isFinite_of_add h

end Binary64

/-! ## Quotients of integers -/

namespace Number

open Binary64 (IsRounding overflow)

variable {m n : Int}

theorem intQuotient_of_lt (hn : n ≠ 0) (h : |(m : Rat) / n| < overflow) :
    ∃ x : Binary64, intQuotient m n = .ok (.double x) ∧ x.isFinite = true := by
  have hfinite := (isRounding_intQuotient m n).isFinite_iff.mpr h
  exact ⟨_, intQuotient_of_isFinite hn hfinite, hfinite⟩

theorem intQuotient_of_overflow (hn : n ≠ 0) (h : overflow ≤ |(m : Rat) / n|) :
    intQuotient m n = .error .quotientTooLarge := by
  have hrounding := isRounding_intQuotient m n
  have hlarge : _ = false := Bool.eq_false_iff.mpr (hrounding.isFinite_iff.not.mpr h.not_gt)
  obtain ⟨negative, heq⟩ := hrounding.exists_infinite hlarge
  unfold intQuotient
  rw [if_neg hn, heq]

end Number

/-! ## Sizes of lengths -/

namespace LengthUnit

open Binary64 (overflow)

variable {u : LengthUnit} {c : Context} {n : Number} {x : Binary64} {v : Rat}

theorem exists_int_divisor (h : u.divisor? = some n) : ∃ k : Int, n = .int k ∧ k ≠ 0 := by
  rcases divisor?_cases h with rfl | rfl
  · exact ⟨2, rfl, by decide⟩
  · exact ⟨100, rfl, by decide⟩

/-- A number that is no integer, or whose factor is none, has the size of its double. -/
theorem toPixels_of_not_int (h : ¬(n.IsInt ∧ (u.factor c).IsInt)) (hx : n.toDouble = .ok x) :
    u.toPixels n c = u.toPixels (.double x) c := by
  obtain ⟨f, hf, -⟩ := Number.exists_toDouble (u.factor_hasFiniteDouble c)
  have hproduct : n.mul (u.factor c) = (Number.double x).mul (u.factor c) := by
    rw [Number.double_mul hf]
    exact Number.combine_of_not_int h hx hf
  rw [toPixels, toPixels, hproduct]

/-- The size of a double is finite, or it is infinite because its product with the factor is beyond
the doubles. -/
theorem toPixels_double (u : LengthUnit) (c : Context) (hv : (Number.double x).IsAt v) :
    ∃ (f z : Binary64) (w : Rat), (u.factor c).toDouble = .ok f ∧ (Number.double f).IsAt w
      ∧ u.toPixels (.double x) c = .ok (.double z) ∧ (z.isFinite = true ↔ |v * w| < overflow)
      ∧ (z.isFinite = false → ∃ negative, z = .infinite negative) := by
  obtain ⟨f, z, hf, hz, hfinite, hinfinite⟩ := u.exists_product c x
  obtain ⟨w, hw⟩ := Number.exists_isAt_toDouble (u.factor_hasFiniteDouble c) hf
  have hrounding := Binary64.isRounding_mul hv hw
  refine ⟨f, z, w, hf, hw, hz, ?_, fun hlarge => hinfinite ?_⟩
  · rw [hfinite]
    exact hrounding.isFinite_iff
  · exact hrounding.exists_infinite (hfinite.symm.trans hlarge)

end LengthUnit

namespace Length

open Binary64 (overflow)

variable {l : Length} {c : Context}

/-- The length is an integer, the factor and the divisor of its unit are integers, and the quotient
is beyond the doubles. -/
def QuotientOverflows (l : Length) (c : Context) : Prop :=
  ∃ a b d : Int, l.value = .int a ∧ l.unit.factor c = .int b ∧ l.unit.divisor? = some (.int d)
    ∧ overflow ≤ |(a * b : Rat) / d|

/-- The length or the factor of its unit is no integer, and the product of both, as doubles, is beyond
the doubles. -/
def ProductOverflows (l : Length) (c : Context) : Prop :=
  ¬(l.value.IsInt ∧ (l.unit.factor c).IsInt) ∧ ∃ (x y : Binary64) (v w : Rat),
    l.value.toDouble = .ok x ∧ (l.unit.factor c).toDouble = .ok y ∧ (Number.double x).IsAt v
      ∧ (Number.double y).IsAt w ∧ overflow ≤ |v * w|

theorem QuotientOverflows.isInt (h : l.QuotientOverflows c) :
    l.value.IsInt ∧ (l.unit.factor c).IsInt := by
  obtain ⟨a, b, -, ha, hb, -⟩ := h
  exact ⟨⟨a, ha⟩, ⟨b, hb⟩⟩

theorem QuotientOverflows.not_product (h : l.QuotientOverflows c) : ¬l.ProductOverflows c :=
  fun hproduct => hproduct.1 h.isInt

/-- Integers are multiplied exactly, and only a quotient of integers can be too large. -/
theorem toPixels_of_int (h : l.value.IsInt ∧ (l.unit.factor c).IsInt) :
    (l.toPixels c = .error .quotientTooLarge ∧ l.QuotientOverflows c)
      ∨ (∃ n q, l.toPixels c = .ok n ∧ n.IsAt q) ∧ ¬l.QuotientOverflows c := by
  obtain ⟨⟨a, ha⟩, ⟨b, hb⟩⟩ := h
  have hproduct : l.value.mul (l.unit.factor c) = .ok (.int (a * b)) := by rw [ha, hb]; rfl
  rw [toPixels, LengthUnit.toPixels, hproduct]
  cases hd : l.unit.divisor? with
  | none =>
    refine .inr ⟨⟨_, _, rfl, Number.isAt_int (a * b)⟩, ?_⟩
    rintro ⟨_, _, _, _, _, hsome, _⟩
    cases hd.symm.trans hsome
  | some d =>
    obtain ⟨k, rfl, hk⟩ := LengthUnit.exists_int_divisor hd
    by_cases hlarge : overflow ≤ |(a * b : Rat) / k|
    · refine .inl ⟨Number.intQuotient_of_overflow hk ?_, a, b, k, ha, hb, hd, hlarge⟩
      rwa [Int.cast_mul]
    · obtain ⟨x, hx, hfinite⟩ := Number.intQuotient_of_lt (m := a * b) hk
        (by rw [Int.cast_mul]; exact not_le.mp hlarge)
      obtain ⟨q, hq⟩ := Number.exists_isAt hfinite
      refine .inr ⟨⟨_, q, hx, hq⟩, ?_⟩
      rintro ⟨a', b', k', ha', hb', hd', hlarge'⟩
      cases ha.symm.trans ha'
      cases hb.symm.trans hb'
      cases hd.symm.trans hd'
      exact hlarge hlarge'

/-- Otherwise both are taken as doubles, and only their product can be too large. -/
theorem toPixels_of_not_int (h : ¬(l.value.IsInt ∧ (l.unit.factor c).IsInt)) :
    (∃ negative, l.toPixels c = .ok (.double (.infinite negative)) ∧ l.ProductOverflows c)
      ∨ (∃ n q, l.toPixels c = .ok n ∧ n.IsAt q) ∧ ¬l.ProductOverflows c := by
  obtain ⟨x, hx, hfinite⟩ := Number.exists_toDouble l.finite
  obtain ⟨v, hv⟩ := Number.exists_isAt hfinite
  obtain ⟨f, z, w, hf, hw, hz, hiff, hinfinite⟩ := l.unit.toPixels_double c hv
  have hsize : l.toPixels c = .ok (.double z) := (LengthUnit.toPixels_of_not_int h hx).trans hz
  cases hzfinite : z.isFinite with
  | false =>
    obtain ⟨negative, rfl⟩ := hinfinite hzfinite
    have hlarge : ¬|v * w| < overflow := by
      rw [← hiff, hzfinite]
      exact Bool.false_ne_true
    exact .inl ⟨negative, hsize, h, x, f, v, w, hx, hf, hv, hw, not_lt.mp hlarge⟩
  | true =>
    obtain ⟨q, hq⟩ := Number.exists_isAt hzfinite
    refine .inr ⟨⟨_, q, hsize, hq⟩, ?_⟩
    rintro ⟨-, x', f', v', w', hx', hf', hv', hw', hlarge⟩
    cases hx.symm.trans hx'
    cases hf.symm.trans hf'
    obtain rfl := hv.unique hv'
    obtain rfl := hw.unique hw'
    exact absurd (hiff.mp hzfinite) (not_lt.mpr hlarge)

/-- **Lengths.** -/
theorem toPixels_cases (l : Length) (c : Context) :
    (l.toPixels c = .error .quotientTooLarge ∧ l.QuotientOverflows c)
      ∨ (∃ negative, l.toPixels c = .ok (.double (.infinite negative)) ∧ l.ProductOverflows c)
      ∨ (∃ n q, l.toPixels c = .ok n ∧ n.IsAt q)
        ∧ ¬l.QuotientOverflows c ∧ ¬l.ProductOverflows c := by
  by_cases hint : l.value.IsInt ∧ (l.unit.factor c).IsInt
  · rcases toPixels_of_int hint with herror | ⟨hsize, hquotient⟩
    · exact .inl herror
    · exact .inr (.inr ⟨hsize, hquotient, fun hproduct => hproduct.1 hint⟩)
  · rcases toPixels_of_not_int hint with hinfinite | ⟨hsize, hproduct⟩
    · exact .inr (.inl hinfinite)
    · exact .inr (.inr ⟨hsize, fun hquotient => hint hquotient.isInt, hproduct⟩)

end Length

/-! ## Values of calculations -/

namespace Number.IsMeasured

variable {n : Number} {x : Binary64} {q : Rat}

/-- A measured number and its double are at the same place. -/
theorem isAt_iff (h : n.IsMeasured) (hx : n.toDouble = .ok x) :
    n.IsAt q ↔ (Number.double x).IsAt q := by
  cases h with
  | zero =>
    obtain rfl : Binary64.zero false = x := Except.ok.inj hx
    have hzero := Binary64.isAt_zero_double false
    exact ⟨fun h => isAt_zero.unique h ▸ hzero, fun h => hzero.unique h ▸ isAt_zero⟩
  | double y =>
    cases hx
    exact Iff.rfl

/-- A measured number makes a length if it is finite, and otherwise it is refused. -/
theorem ofNumber_cases (h : n.IsMeasured) (u : LengthUnit) :
    ((∃ q, n.IsAt q) → ∃ l, Length.ofNumber n u = .ok l ∧ l.value = n ∧ l.unit = u)
      ∧ ((¬∃ q, n.IsAt q) → Length.ofNumber n u = .error (.lengthNotFinite (.number n))) := by
  obtain ⟨x, hx⟩ := h.exists_toDouble
  have hfinite : (∃ q, n.IsAt q) ↔ n.hasFiniteDouble = true := by
    simp only [h.isAt_iff hx, Binary64.exists_isAt_iff, hasFiniteDouble, hx]
  rw [hfinite, Length.ofNumber, hx]
  dsimp only
  exact ⟨fun h => ⟨_, dif_pos h, rfl, rfl⟩, fun h => dif_neg h⟩

end Number.IsMeasured

namespace CalcOperator

open Binary64 (overflow)

/-- The operator on exact values. -/
def onRat : CalcOperator → Rat → Rat → Rat
  | .plus => (· + ·)
  | .minus => (· - ·)

def onDouble : CalcOperator → Binary64 → Binary64 → Binary64
  | .plus => Binary64.add
  | .minus => Binary64.sub

variable {a b n : Number} {x y : Binary64}

/-- The result on doubles is finite if both are and the exact result is not too large. -/
theorem isFinite_onDouble_iff (o : CalcOperator) : (o.onDouble x y).isFinite = true
    ↔ ∃ p q, (Number.double x).IsAt p ∧ (Number.double y).IsAt q ∧ |o.onRat p q| < overflow := by
  have hrounding {p q : Rat} (hp : (Number.double x).IsAt p) (hq : (Number.double y).IsAt q) :
      Binary64.IsRounding (o.onRat p q) (o.onDouble x y) := by
    cases o with
    | plus => exact Binary64.isRounding_add hp hq
    | minus => exact Binary64.isRounding_sub hp hq
  have hboth (h : (o.onDouble x y).isFinite = true) : x.isFinite = true ∧ y.isFinite = true := by
    cases o with
    | plus => exact Binary64.isFinite_of_add h
    | minus => exact Binary64.isFinite_of_sub h
  constructor
  · intro h
    obtain ⟨hx, hy⟩ := hboth h
    obtain ⟨p, hp⟩ := Number.exists_isAt hx
    obtain ⟨q, hq⟩ := Number.exists_isAt hy
    exact ⟨p, q, hp, hq, (hrounding hp hq).isFinite_iff.mp h⟩
  · rintro ⟨p, q, hp, hq, hless⟩
    exact (hrounding hp hq).isFinite_iff.mpr hless

theorem exists_isAt_apply_iff (o : CalcOperator) (ha : a.IsMeasured) (hb : b.IsMeasured)
    (hn : o.apply a b = .ok n) :
    (∃ q, n.IsAt q) ↔ ∃ p q, a.IsAt p ∧ b.IsAt q ∧ |o.onRat p q| < overflow := by
  by_cases hint : a.IsInt ∧ b.IsInt
  · obtain ⟨⟨i, rfl⟩, ⟨j, rfl⟩⟩ := hint
    cases ha
    cases hb
    have hzero : o.onRat 0 0 = 0 := by cases o <;> simp [onRat]
    refine iff_of_true ?_ ⟨0, 0, Number.isAt_zero, Number.isAt_zero, ?_⟩
    · cases o <;> cases hn <;> exact ⟨_, Number.isAt_int _⟩
    · rw [hzero, abs_zero]
      exact Binary64.overflow_pos
  · obtain ⟨x, hx⟩ := ha.exists_toDouble
    obtain ⟨y, hy⟩ := hb.exists_toDouble
    have happly : o.apply a b = .ok (.double (o.onDouble x y)) := by
      cases o <;> exact Number.combine_of_not_int hint hx hy
    obtain rfl : Number.double (o.onDouble x y) = n := Except.ok.inj (happly.symm.trans hn)
    rw [Binary64.exists_isAt_iff, isFinite_onDouble_iff]
    simp only [ha.isAt_iff hx, hb.isAt_iff hy]

end CalcOperator

namespace CalcExpression

open Binary64 (overflow)

variable {t : Text} {e : CalcExpression}

/-- Both terms and their sum or difference are within the doubles. -/
def InRange (e : CalcExpression) (c : Context) : Prop :=
  ∃ a b p q, e.left.toPixels c = .ok a ∧ e.right.toPixels c = .ok b ∧ a.IsAt p ∧ b.IsAt q
    ∧ |e.operator.onRat p q| < overflow

/-- **Calculations.** -/
theorem evaluate_cases (h : read t = .ok e) (c : Context) :
    ∃ n, e.evaluate c = .ok n ∧ n.IsMeasured ∧ ((∃ q, n.IsAt q) ↔ e.InRange c) := by
  obtain ⟨hleft, hright⟩ := isRead_of_read h
  obtain ⟨a, ha, hameasured⟩ := Term.exists_toPixels hleft c
  obtain ⟨b, hb, hbmeasured⟩ := Term.exists_toPixels hright c
  obtain ⟨n, hn, hmeasured⟩ := e.operator.exists_apply hameasured hbmeasured
  refine ⟨n, ?_, hmeasured, ?_⟩
  · rw [evaluate, ha, hb]
    exact hn
  · rw [e.operator.exists_isAt_apply_iff hameasured hbmeasured hn]
    simp only [InRange, ha, hb, Except.ok.injEq, exists_and_left, exists_eq_left']

end CalcExpression

/-! ## Main result -/

/-- **Conversion.** The only fault is a quotient of integers that overflows, and a size is infinite
just if its product overflows; otherwise it is finite. A calculation that was read always has a
value. That is finite just if the calculation is in range, and then it makes a length. -/
theorem conversion_cases (c : Context) :
    (∀ l : Length,
      (∀ f, l.toPixels c = .error f ↔ f = .quotientTooLarge ∧ l.QuotientOverflows c)
      ∧ ((∃ negative, l.toPixels c = .ok (.double (.infinite negative))) ↔ l.ProductOverflows c)
      ∧ ((∃ n q, l.toPixels c = .ok n ∧ n.IsAt q)
        ↔ ¬l.QuotientOverflows c ∧ ¬l.ProductOverflows c))
    ∧ ∀ (t : Text) (e : CalcExpression), CalcExpression.read t = .ok e →
      ∃ n, e.evaluate c = .ok n ∧ ((∃ q, n.IsAt q) ↔ e.InRange c)
        ∧ (e.InRange c → ∃ l, e.toLength c = .ok l ∧ l.value = n ∧ l.unit = .px)
        ∧ (¬e.InRange c → e.toLength c = .error (.lengthNotFinite (.number n))) := by
  refine ⟨fun l => ?_, fun t e hread => ?_⟩
  · rcases l.toPixels_cases c with ⟨hsize, hquotient⟩ | ⟨negative, hsize, hproduct⟩ | hfinite
    · have hproduct := hquotient.not_product
      simp [hsize, hquotient, hproduct, eq_comm]
    · have hquotient : ¬l.QuotientOverflows c := fun h => h.not_product hproduct
      have hnowhere : ¬∃ q, (Number.double (.infinite negative)).IsAt q :=
        Binary64.exists_isAt_iff.not.mpr Bool.false_ne_true
      simp [hsize, hquotient, hproduct, hnowhere]
    · obtain ⟨⟨n, q, hsize, hq⟩, hquotient, hproduct⟩ := hfinite
      have hnot (negative : Bool) : n ≠ .double (.infinite negative) := by
        rintro rfl
        exact Bool.false_ne_true (Binary64.exists_isAt_iff.mp ⟨q, hq⟩)
      simpa [hsize, hquotient, hproduct, hnot] using ⟨q, hq⟩
  · obtain ⟨n, hn, hmeasured, hiff⟩ := CalcExpression.evaluate_cases hread c
    obtain ⟨hok, herror⟩ := hmeasured.ofNumber_cases .px
    have hlength : e.toLength c = Length.ofNumber n .px := by
      rw [CalcExpression.toLength, hn]
      rfl
    rw [hlength, ← hiff]
    exact ⟨n, hn, Iff.rfl, hok, herror⟩

/-- Two terms within the doubles whose sum is beyond them: it makes no length. -/
theorem conversion_cases_large_sum : ∃ e n, CalcExpression.read "calc(1e308px + 1e308px)".toList = .ok e
    ∧ e.evaluate .default = .ok n ∧ (¬∃ q, n.IsAt q)
    ∧ e.toLength .default = .error (.lengthNotFinite (.number n)) := by
  have heval : ((CalcExpression.read "calc(1e308px + 1e308px)".toList).toOption.any
      fun e => !(e.toLength .default).isOk) = true := by decide +kernel
  cases he : CalcExpression.read "calc(1e308px + 1e308px)".toList with
  | error why =>
    rw [he] at heval
    cases heval
  | ok e =>
    obtain ⟨n, hn, hiff, hok, herror⟩ := (conversion_cases .default).2 _ e he
    have hlarge : ¬e.InRange .default := by
      intro h
      obtain ⟨l, hl, -⟩ := hok h
      rw [he] at heval
      simp only [Except.toOption, Option.any_some, hl] at heval
      cases heval
    exact ⟨e, n, rfl, hn, hiff.not.mpr hlarge, herror hlarge⟩

/-- The product of a length with the viewport may be infinite before it is taken in hundredths, though
the size is within the doubles, and the size of an integer may be a fault. -/
theorem not_conversion_finite :
    (∃ l : Length, l.value = .double (Binary64.ofInt (9 * 10 ^ 306)) ∧ l.unit = .vw
      ∧ l.toPixels .default = .ok (.double (.infinite false))
      ∧ ((1920 * (9 * 10 ^ 306) / 100 : Rat) < Binary64.overflow))
    ∧ ∃ l : Length, l.value = .int (10 ^ 308) ∧ l.unit = .vw
      ∧ l.toPixels .default = .error .quotientTooLarge :=
  ⟨⟨⟨.double (Binary64.ofInt (9 * 10 ^ 306)), .vw, by decide +kernel⟩, rfl, rfl,
      by decide +kernel, by decide +kernel⟩,
    ⟨.int (10 ^ 308), .vw, by decide +kernel⟩, rfl, rfl, by decide +kernel⟩

end CssValues
