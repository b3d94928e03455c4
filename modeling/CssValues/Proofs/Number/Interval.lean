import CssValues.Proofs.Number.Monotone

/-!
# Numbers between doubles

Arithmetic on numbers that lie between doubles has a result if the exact result lies between doubles
again, and then it lies between these (`Number.Within.combine`, `Number.Within.div`). Kept between
two bounds, every number lies between them, NaN included (`Number.within_clamp`).
-/

namespace CssValues

/-! ## Results with a property -/

/-- There is a result, and it has the property. -/
def Yields {ε α : Type} (r : Except ε α) (p : α → Prop) : Prop := ∃ a, r = .ok a ∧ p a

namespace Yields

variable {ε α β : Type} {r : Except ε α} {p : α → Prop}

theorem ok {a : α} (h : p a) : Yields (.ok a : Except ε α) p := ⟨a, rfl, h⟩

theorem mono (h : Yields r p) {q : α → Prop} (hq : ∀ a, p a → q a) : Yields r q := by
  obtain ⟨a, ha, hp⟩ := h
  exact ⟨a, ha, hq a hp⟩

theorem bind (h : Yields r p) {f : α → Except ε β} {q : β → Prop}
    (hf : ∀ a, p a → Yields (f a) q) : Yields (r >>= f) q := by
  obtain ⟨a, rfl, hp⟩ := h
  exact hf a hp

/-- Two ways to a result that is used in the same way. -/
theorem ite_bind {c : Prop} [Decidable c] {s : Except ε α} (hr : Yields r p) (hs : Yields s p)
    {f : α → Except ε β} {q : β → Prop} (hf : ∀ a, p a → Yields (f a) q) :
    Yields (if c then r >>= f else s >>= f) q := by
  split
  · exact hr.bind hf
  · exact hs.bind hf

end Yields

namespace Number

open Binary64 (IsExact IsRounding)

variable {a b : Number} {A B C D E F q : Rat}

/-- The number lies between two rational numbers that are doubles. -/
structure Within (a : Number) (low high : Rat) : Prop where
  exactLow : IsExact low
  exactHigh : IsExact high
  isAt : ∃ q, a.IsAt q ∧ low ≤ q ∧ q ≤ high

theorem Within.bounds (h : a.Within A B) (hq : a.IsAt q) : A ≤ q ∧ q ≤ B := by
  obtain ⟨-, -, v, hv, hlow, hhigh⟩ := h
  obtain rfl := hq.unique hv
  exact ⟨hlow, hhigh⟩

theorem Within.widen (h : a.Within A B) (hlow : E ≤ A := by norm_num) (hhigh : B ≤ F := by norm_num)
    (hE : IsExact E := by first | assumption | simp)
    (hF : IsExact F := by first | assumption | simp) :
    a.Within E F := by
  obtain ⟨-, -, q, hq, hlowq, hhighq⟩ := h
  exact ⟨hE, hF, q, hq, hlow.trans hlowq, hhighq.trans hhigh⟩

theorem within_ofNat {n : Nat} (hlow : A ≤ n := by norm_num) (hhigh : n ≤ B := by norm_num)
    (hA : IsExact A := by first | assumption | simp)
    (hB : IsExact B := by first | assumption | simp) :
    (int n).Within A B := ⟨hA, hB, n, rfl, hlow, hhigh⟩

theorem isRounding_ofInt (n : Int) : IsRounding n (Binary64.ofInt n) := Binary64.isRounding_ofRat n

theorem Within.toDouble (h : a.Within A B) :
    Yields a.toDouble fun x => (double x).Within A B := by
  obtain ⟨hA, hB, q, hq, hlow, hhigh⟩ := h
  cases a with
  | int n =>
    obtain rfl : (n : Rat) = q := by cases hq; rfl
    obtain ⟨v, hv, hbetween⟩ := (isRounding_ofInt n).between hA hB hlow hhigh
    exact ⟨_, toDouble_int (Binary64.exists_isAt_iff.mp ⟨v, hv⟩), hA, hB, v, hv, hbetween⟩
  | double x => exact ⟨x, rfl, hA, hB, q, hq, hlow, hhigh⟩

/-! ## Conversion -/

def IsDouble (a : Number) : Prop := ∃ x, a = .double x

/-- There is a double near the number. -/
def Converts (a : Number) : Prop := ∃ x, a.toDouble = .ok x

theorem IsDouble.converts (h : a.IsDouble) : a.Converts := by
  obtain ⟨x, rfl⟩ := h
  exact ⟨x, rfl⟩

theorem Within.converts (h : a.Within A B) : a.Converts := by
  obtain ⟨x, hx, -⟩ := h.toDouble
  exact ⟨x, hx⟩

section

variable {onInt : Int → Int → Int} {onDouble : Binary64 → Binary64 → Binary64}

theorem IsDouble.combine (ha : a.IsDouble) (hb : b.Converts) :
    Yields (Number.combine onInt onDouble a b) IsDouble := by
  obtain ⟨x, rfl⟩ := ha
  obtain ⟨y, hy⟩ := hb
  exact ⟨_, combine_of_not_int (fun h => not_isInt_double x h.1) rfl hy, _, rfl⟩

theorem Converts.combine (ha : a.Converts) (hb : b.IsDouble) :
    Yields (Number.combine onInt onDouble a b) IsDouble := by
  obtain ⟨x, hx⟩ := ha
  obtain ⟨y, rfl⟩ := hb
  exact ⟨_, combine_of_not_int (fun h => not_isInt_double y h.2) hx rfl, _, rfl⟩

end

/-! ## Arithmetic -/

/-- Arithmetic stays between doubles if the exact result does. -/
theorem Within.combine {onInt : Int → Int → Int} {onDouble : Binary64 → Binary64 → Binary64}
    {f : Rat → Rat → Rat} (ha : a.Within A B) (hb : b.Within C D)
    (hint : ∀ m n : Int, ((onInt m n : Int) : Rat) = f m n)
    (hdouble : ∀ {x y v w}, (double x).IsAt v → (double y).IsAt w →
      IsRounding (f v w) (onDouble x y))
    (hE : IsExact E) (hF : IsExact F)
    (hrange : ∀ p q, A ≤ p → p ≤ B → C ≤ q → q ≤ D → E ≤ f p q ∧ f p q ≤ F) :
    Yields (Number.combine onInt onDouble a b) (·.Within E F) := by
  have hrounded {x y : Binary64} (hx : (double x).Within A B) (hy : (double y).Within C D) :
      (double (onDouble x y)).Within E F := by
    obtain ⟨-, -, v, hv, hlowv, hhighv⟩ := hx
    obtain ⟨-, -, w, hw, hloww, hhighw⟩ := hy
    obtain ⟨hlow, hhigh⟩ := hrange v w hlowv hhighv hloww hhighw
    exact ⟨hE, hF, (hdouble hv hw).between hE hF hlow hhigh⟩
  obtain ⟨x, hx, hxbetween⟩ := ha.toDouble
  obtain ⟨y, hy, hybetween⟩ := hb.toDouble
  by_cases hinteger : a.IsInt ∧ b.IsInt
  · obtain ⟨⟨m, rfl⟩, ⟨n, rfl⟩⟩ := hinteger
    obtain ⟨hlowv, hhighv⟩ := ha.bounds (isAt_int m)
    obtain ⟨hloww, hhighw⟩ := hb.bounds (isAt_int n)
    obtain ⟨hlow, hhigh⟩ := hrange m n hlowv hhighv hloww hhighw
    exact ⟨int (onInt m n), rfl, hE, hF, f m n, by rw [← hint]; rfl, hlow, hhigh⟩
  · exact ⟨_, combine_of_not_int hinteger hx hy, hrounded hxbetween hybetween⟩

theorem Within.add (ha : a.Within A B) (hb : b.Within C D) (hlow : E ≤ A + C := by norm_num)
    (hhigh : B + D ≤ F := by norm_num) (hE : IsExact E := by first | assumption | simp)
    (hF : IsExact F := by first | assumption | simp) : Yields (a.add b) (·.Within E F) :=
  ha.combine hb Int.cast_add Binary64.isRounding_add hE hF fun p q _ _ _ _ =>
    ⟨by linarith, by linarith⟩

theorem Within.sub (ha : a.Within A B) (hb : b.Within C D) (hlow : E ≤ A - D := by norm_num)
    (hhigh : B - C ≤ F := by norm_num) (hE : IsExact E := by first | assumption | simp)
    (hF : IsExact F := by first | assumption | simp) : Yields (a.sub b) (·.Within E F) :=
  ha.combine hb Int.cast_sub Binary64.isRounding_sub hE hF fun p q _ _ _ _ =>
    ⟨by linarith, by linarith⟩

theorem Within.mul (ha : a.Within A B) (hb : b.Within C D)
    (hrange : ∀ p q, A ≤ p → p ≤ B → C ≤ q → q ≤ D → E ≤ p * q ∧ p * q ≤ F)
    (hE : IsExact E := by first | assumption | simp)
    (hF : IsExact F := by first | assumption | simp) :
    Yields (a.mul b) (·.Within E F) :=
  ha.combine hb Int.cast_mul Binary64.isRounding_mul hE hF hrange

theorem isRounding_intQuotient (m n : Int) : IsRounding ((m : Rat) / n)
    (Binary64.ofMagnitude (decide (m < 0) != decide (n < 0)) ((m.natAbs : Rat) / n.natAbs)) := by
  refine ⟨decide (m < 0) != decide (n < 0), ?_, ?_⟩
  · rw [abs_div, Nat.cast_natAbs, Nat.cast_natAbs, Int.cast_abs, Int.cast_abs]
  · rcases lt_or_ge m 0 with hm | hm
    · have hm' : (m : Rat) ≤ 0 := by exact_mod_cast hm.le
      rcases lt_or_ge n 0 with hn | hn
      · have hn' : (n : Rat) ≤ 0 := by exact_mod_cast hn.le
        simpa [hm, hn] using div_nonneg_of_nonpos hm' hn'
      · have hn' : (0 : Rat) ≤ n := by exact_mod_cast hn
        simpa [hm, hn.not_gt] using div_nonpos_of_nonpos_of_nonneg hm' hn'
    · have hm' : (0 : Rat) ≤ m := by exact_mod_cast hm
      rcases lt_or_ge n 0 with hn | hn
      · have hn' : (n : Rat) ≤ 0 := by exact_mod_cast hn.le
        simpa [hm.not_gt, hn] using div_nonpos_of_nonneg_of_nonpos hm' hn'
      · have hn' : (0 : Rat) ≤ n := by exact_mod_cast hn
        simpa [hm.not_gt, hn.not_gt] using div_nonneg hm' hn'

theorem intQuotient_of_isFinite {m n : Int} (hn : n ≠ 0) (h : (Binary64.ofMagnitude
    (decide (m < 0) != decide (n < 0)) ((m.natAbs : Rat) / n.natAbs)).isFinite = true) :
    intQuotient m n = .ok (.double (Binary64.ofMagnitude
      (decide (m < 0) != decide (n < 0)) ((m.natAbs : Rat) / n.natAbs))) := by
  unfold intQuotient
  rw [if_neg hn]
  split
  · next negative heq =>
    rw [heq] at h
    cases h
  · rfl

/-- A quotient by a divisor above zero is a double. -/
theorem Within.div (ha : a.Within A B) (hb : b.Within C D)
    (hrange : ∀ p q, A ≤ p → p ≤ B → C ≤ q → q ≤ D → E ≤ p / q ∧ p / q ≤ F)
    (hC : 0 < C := by norm_num) (hE : IsExact E := by first | assumption | simp)
    (hF : IsExact F := by first | assumption | simp) :
    Yields (a.div b) fun c => c.IsDouble ∧ c.Within E F := by
  have hrounded {x y : Binary64} (hx : (double x).Within A B) (hy : (double y).Within C D) :
      (double (x.div y)).Within E F := by
    obtain ⟨-, -, v, hv, hlowv, hhighv⟩ := hx
    obtain ⟨-, -, w, hw, hloww, hhighw⟩ := hy
    obtain ⟨hlow, hhigh⟩ := hrange v w hlowv hhighv hloww hhighw
    exact ⟨hE, hF, (Binary64.isRounding_div hv hw).between hE hF hlow hhigh⟩
  obtain ⟨x, hx, hxbetween⟩ := ha.toDouble
  obtain ⟨y, hy, hybetween⟩ := hb.toDouble
  have hnonzero : y.isZero = false := by
    obtain ⟨-, -, w, hw, hlow, -⟩ := hybetween
    exact Binary64.isZero_of_ne_zero hw (hC.trans_le hlow).ne'
  by_cases hinteger : a.IsInt ∧ b.IsInt
  · obtain ⟨⟨m, rfl⟩, ⟨n, rfl⟩⟩ := hinteger
    obtain ⟨hlowv, hhighv⟩ := ha.bounds (isAt_int m)
    obtain ⟨hloww, hhighw⟩ := hb.bounds (isAt_int n)
    obtain ⟨hlow, hhigh⟩ := hrange m n hlowv hhighv hloww hhighw
    have hn : n ≠ 0 := by
      rintro rfl
      rw [Int.cast_zero] at hloww
      linarith
    obtain ⟨r, hr, hbetween⟩ := (isRounding_intQuotient m n).between hE hF hlow hhigh
    exact ⟨_, intQuotient_of_isFinite hn (Binary64.exists_isAt_iff.mp ⟨r, hr⟩), ⟨_, rfl⟩, hE, hF, r,
      hr, hbetween⟩
  · exact ⟨_, div_of_not_int hinteger hx hy hnonzero, ⟨_, rfl⟩, hrounded hxbetween hybetween⟩

/-! ## Clamping and rounding -/

/-- Of the larger of two numbers holds what holds of both. -/
theorem max_of_both {p : Number → Prop} (ha : p a) (hb : p b) : p (a.max b) := by
  unfold Number.max
  split
  · exact hb
  · exact ha

theorem min_of_both {p : Number → Prop} (ha : p a) (hb : p b) : p (a.min b) := by
  unfold Number.min
  split
  · exact hb
  · exact ha

theorem isAt_abs (h : a.IsAt q) : a.abs.IsAt |q| := by
  cases a with
  | int n =>
    obtain rfl : (n : Rat) = q := by cases h; rfl
    have hvalue : ((n.natAbs : Int) : Rat) = |(n : Rat)| := by
      rw [Int.natCast_natAbs, Int.cast_abs]
    rw [← hvalue]
    rfl
  | double x =>
    obtain ⟨negative, m, e, hfits, rfl, rfl⟩ := Binary64.isAt_double.mp h
    rw [Binary64.abs_exact]
    rfl

theorem Within.abs (h : a.Within (-B) B) : a.abs.Within 0 B := by
  obtain ⟨-, hB, q, hq, hlow, hhigh⟩ := h
  exact ⟨Binary64.isExact_zero, hB, |q|, isAt_abs hq, abs_nonneg q, abs_le.mpr ⟨hlow, hhigh⟩⟩

/-- Where a number ends up that is kept between two bounds. NaN counts as the upper end. -/
def clamped (A B : Rat) : Option Position → Rat
  | some .bottom => A
  | some (.point q) => Max.max A (Min.min B q)
  | some .top | none => B

theorem isAt_clamp (ha : a.IsAt A) (hb : b.IsAt B) (h : A ≤ B) (n : Number) :
    (Number.max a (Number.min b n)).IsAt (clamped A B n.position?) := by
  have hupper (hmin : Number.min b n = b) : (Number.max a (Number.min b n)).IsAt B := by
    rw [hmin]
    have hmax := isAt_max ha hb
    rwa [max_eq_right h] at hmax
  unfold IsAt at ha hb
  cases hn : n.position? with
  | none => exact hupper (if_neg (by simp [lt, hn]))
  | some p =>
    cases p with
    | bottom =>
      have hmin : Number.min b n = n := if_pos (by simp [lt, hn, hb, Position.lt])
      have hmax : Number.max a n = a := if_neg (by simp [lt, hn, ha, Position.lt])
      rw [hmin, hmax]
      exact ha
    | point q => exact isAt_max ha (isAt_min hb hn)
    | top => exact hupper (if_neg (by simp [lt, hn, hb, Position.lt]))

theorem clamped_mem (h : A ≤ B) (p : Option Position) : A ≤ clamped A B p ∧ clamped A B p ≤ B := by
  rcases p with - | - | q | -
  · exact ⟨h, le_rfl⟩
  · exact ⟨le_rfl, h⟩
  · exact ⟨le_max_left _ _, max_le h (min_le_left _ _)⟩
  · exact ⟨h, le_rfl⟩

theorem clamped_min (hb : b.IsAt B) (h : A ≤ B) (n : Number) :
    clamped A B (Number.min b n).position? = clamped A B n.position? := by
  cases hlt : n.lt b with
  | true => rw [show Number.min b n = n from if_pos hlt]
  | false =>
    rw [show Number.min b n = b from if_neg (by simp [hlt])]
    unfold IsAt at hb
    unfold lt at hlt
    rw [hb] at hlt ⊢
    -- the number is at the upper bound or beyond it
    have hupper : clamped A B (some (.point B)) = B := by simp [clamped, h]
    rw [hupper]
    rcases hn : n.position? with - | - | q | -
    · rfl
    · simp [hn, Position.lt] at hlt
    · have hq : B ≤ q := by simpa [hn, Position.lt] using hlt
      simp [clamped, hq, h]
    · rfl

/-- NaN would be sent to the lower bound. -/
theorem clamped_max {n : Number} (ha : a.IsAt A) (h : A ≤ B) (hn : n ≠ .double .nan) :
    clamped A B (Number.max a n).position? = clamped A B n.position? := by
  cases hlt : a.lt n with
  | true => rw [max_of_lt hlt]
  | false =>
    rw [max_of_not_lt hlt]
    unfold IsAt at ha
    unfold lt at hlt
    rw [ha] at hlt ⊢
    have hlower : clamped A B (some (.point A)) = A := by simp [clamped, h]
    rw [hlower]
    rcases hp : n.position? with - | - | q | -
    · exact absurd (eq_nan_of_position? hp) hn
    · rfl
    · have hq : q ≤ A := by simpa [hp, Position.lt] using hlt
      simp [clamped, hq]
    · simp [hp, Position.lt] at hlt

/-- Whatever number is kept between two bounds lies between them, NaN included. -/
theorem within_clamp (ha : a.IsAt A) (hb : b.IsAt B) (n : Number) (h : A ≤ B := by norm_num)
    (hA : IsExact A := by first | assumption | simp)
    (hB : IsExact B := by first | assumption | simp) :
    (Number.max a (Number.min b n)).Within A B :=
  ⟨hA, hB, _, isAt_clamp ha hb h n, clamped_mem h n.position?⟩

theorem round_of_isAt (h : a.IsAt q) : a.round = .ok (nearestEven q) := by
  cases a with
  | int n =>
    obtain rfl : (n : Rat) = q := by cases h; rfl
    rw [nearestEven_intCast]
    rfl
  | double x =>
    obtain ⟨negative, m, e, hfits, rfl, rfl⟩ := Binary64.isAt_double.mp h
    rfl

theorem Within.round {m n : Int} (ha : a.Within m n) :
    Yields a.round fun k => m ≤ k ∧ k ≤ n := by
  obtain ⟨-, -, q, hq, hlow, hhigh⟩ := ha
  exact ⟨nearestEven q, round_of_isAt hq, le_nearestEven hlow, nearestEven_le hhigh⟩

end Number

end CssValues
