import CssValues.Proofs.Number.Interval

/-!
# Rounding errors

No double is nearer to an exact result than the one it is rounded to
(`Binary64.IsRounding.abs_sub_le_abs_sub`), so the error is at most half a step of every grid of
doubles around the result (`Binary64.IsRounding.abs_sub_le`). In a computation with numbers of one
size the errors are counted in ticks (`Number.Near`): each operation takes over the errors of its
operands and adds a tick of its own.
-/

namespace CssValues

/-! ## The nearest integer -/

theorem abs_nearestEven_sub_le (q : Rat) : |(nearestEven q : Rat) - q| ≤ 1 / 2 := by
  rcases nearestEven_cases q with hless | ⟨hhalf, -⟩
  · exact hless.le
  · exact hhalf.le

theorem nearestEven_mono {p q : Rat} (h : p ≤ q) : nearestEven p ≤ nearestEven q := by
  by_contra hless
  have hgap : (nearestEven q : Rat) + 1 ≤ nearestEven p := by
    exact_mod_cast (show nearestEven q + 1 ≤ nearestEven p by omega)
  obtain ⟨-, hp⟩ := abs_le.mp (abs_nearestEven_sub_le p)
  obtain ⟨hq, -⟩ := abs_le.mp (abs_nearestEven_sub_le q)
  -- both are halfway between two neighbours, so they are one number
  obtain rfl : p = q := le_antisymm h (by linarith)
  exact hless le_rfl

namespace Binary64

variable {x : Binary64} {v w z : Rat} {k : Nat}

/-! ## The nearest double -/

/-- Only a zero can be rounded in two ways, with either sign. -/
theorem IsRounding.eq_ofRat (h : IsRounding z x) (hz : z ≠ 0) : x = ofRat z := by
  obtain ⟨negative, rfl, hsign⟩ := h
  unfold ofRat
  cases negative with
  | false =>
    have hnonneg : 0 ≤ z := hsign
    rw [if_neg hnonneg.not_gt, abs_of_nonneg hnonneg]
  | true =>
    have hneg : z < 0 := lt_of_le_of_ne hsign hz
    rw [if_pos hneg, abs_of_neg hneg]

/-- No double is nearer than the one that a number is rounded to. -/
theorem IsRounding.abs_sub_le_abs_sub (h : IsRounding z x) (hv : (Number.double x).IsAt v)
    (hw : IsExact w) : |v - z| ≤ |w - z| := by
  obtain ⟨negative, m, e, hfits, hrounded, rfl, hsign⟩ := h.exists_magnitude hv
  obtain ⟨-, m', e', hfits', heq, hnearest⟩ := (isNearest_iff (abs_nonneg z)).mpr ⟨hrounded, rfl⟩
  cases heq
  obtain ⟨y, hy⟩ := hw
  obtain ⟨sign, n, f, hn, rfl, rfl⟩ := isAt_double.mp hy
  -- the magnitudes are compared first
  obtain ⟨u, hu⟩ : ∃ u, u = |z| := ⟨_, rfl⟩
  rw [← hu] at hnearest
  have hmagnitude : |exact negative m e - z| = |exact false m e - u| := by
    rw [hu]
    cases negative with
    | false => rw [abs_of_nonneg (show 0 ≤ z from hsign)]
    | true =>
      rw [abs_of_nonpos (show z ≤ 0 from hsign), exact_eq true, if_pos rfl, ← abs_neg]
      congr 1
      ring
  have hother : |exact false n f - u| ≤ |exact sign n f - z| := by
    rw [hu, ← abs_exact sign]
    exact abs_abs_sub_abs_le _ _
  rw [hmagnitude]
  exact ((hnearest n f hn).elim le_of_lt fun h => h.1.le).trans hother

theorem isExact_intCast_div {n : Int} (hn : n.natAbs < 2 ^ 53) (hk : k ≤ 1022) :
    IsExact ((n : Rat) / 2 ^ k) := by
  obtain ⟨m, rfl | rfl⟩ := n.eq_nat_or_neg
  · rw [Int.cast_natCast]
    exact isExact_div_two_pow (by simpa using hn) hk
  · rw [Int.cast_neg, Int.cast_natCast, neg_div, isExact_neg]
    exact isExact_div_two_pow (by simpa using hn) hk

/-- **Rounding error.** Around a result the multiples of `1 / 2 ^ k` are doubles if it has few enough
of them, and then it is rounded by at most half of that. -/
theorem IsRounding.abs_sub_le (h : IsRounding z x) (hv : (Number.double x).IsAt v) (hk : k ≤ 1022)
    (hz : |z| * 2 ^ k ≤ 9007199254740991) : |v - z| ≤ 1 / 2 ^ (k + 1) := by
  have hstep : (0 : Rat) < 2 ^ k := by positivity
  have hnear := abs_nearestEven_sub_le (z * 2 ^ k)
  have hcount : (nearestEven (z * 2 ^ k)).natAbs < 2 ^ 53 := by
    have hscaled : |z * 2 ^ k| ≤ 9007199254740991 := by rwa [abs_mul, abs_of_pos hstep]
    obtain ⟨hlow, hhigh⟩ := abs_le.mp hscaled
    have hupper : nearestEven (z * 2 ^ k) ≤ 9007199254740991 :=
      nearestEven_le (by rw [Int.cast_ofNat]; exact hhigh)
    have hlower : -9007199254740991 ≤ nearestEven (z * 2 ^ k) :=
      le_nearestEven (by rw [Int.cast_neg, Int.cast_ofNat]; exact hlow)
    omega
  have hscale : (nearestEven (z * 2 ^ k) : Rat) / 2 ^ k - z
      = ((nearestEven (z * 2 ^ k) : Rat) - z * 2 ^ k) / 2 ^ k := by
    field_simp
  calc |v - z| ≤ |(nearestEven (z * 2 ^ k) : Rat) / 2 ^ k - z| :=
        h.abs_sub_le_abs_sub hv (isExact_intCast_div hcount hk)
    _ = |(nearestEven (z * 2 ^ k) : Rat) - z * 2 ^ k| / 2 ^ k := by
        rw [hscale, abs_div, abs_of_pos hstep]
    _ ≤ 1 / 2 / 2 ^ k := div_le_div_of_nonneg_right hnear hstep.le
    _ = 1 / 2 ^ (k + 1) := by rw [pow_succ']; field_simp

theorem IsRounding.exists_abs_sub_le (h : IsRounding z x) (hk : k ≤ 1022)
    (hz : |z| * 2 ^ k ≤ 9007199254740991) :
    ∃ v, (Number.double x).IsAt v ∧ |v - z| ≤ 1 / 2 ^ (k + 1) := by
  have hbound : |z| < overflow := by
    have hone : (1 : Rat) ≤ 2 ^ k := one_le_pow₀ (by norm_num)
    have hlarge := IsExact.lt_overflow (q := 9007199254740991) (by simp)
    rw [abs_of_pos (by norm_num)] at hlarge
    exact (le_mul_of_one_le_right (abs_nonneg z) hone).trans_lt (hz.trans_lt hlarge)
  obtain ⟨v, hv⟩ := h.exists_isAt hbound
  exact ⟨v, hv, h.abs_sub_le hv hk hz⟩

end Binary64

namespace Number

open Binary64 (IsExact IsRounding)

variable {a b : Number} {p q A B E : Rat} {k m n r s : Nat}

/-! ## One operation -/

/-- A number that is not too large has a double of the same value. -/
theorem IsAt.exists_toDouble (h : a.IsAt q) (hq : |q| < 2 ^ 53) :
    ∃ x, a.toDouble = .ok x ∧ (double x).IsAt q := by
  cases a with
  | double x => exact ⟨x, rfl, h⟩
  | int i =>
    obtain rfl : (i : Rat) = q := by cases h; rfl
    have hsmall : i.natAbs < 2 ^ 53 := by
      rw [← Int.cast_abs] at hq
      have hint : |i| < 2 ^ 53 := by exact_mod_cast hq
      rw [Int.abs_eq_natAbs] at hint
      omega
    have hexact : IsExact i := by
      simpa using Binary64.isExact_intCast_div (k := 0) hsmall (by norm_num)
    exact ⟨_, hexact.toDouble_int, hexact.isAt_ofRat⟩

/-- The number is rounded from `z` with an error of half a step of every grid of doubles around it. -/
def IsRounded (c : Number) (z : Rat) : Prop :=
  ∀ k ≤ 1022, |z| * 2 ^ k ≤ 9007199254740991 → ∃ v, c.IsAt v ∧ |v - z| ≤ 1 / 2 ^ (k + 1)

theorem isRounded_of_isRounding {x : Binary64} {z : Rat} (h : IsRounding z x) :
    (double x).IsRounded z := fun _ hk hz => h.exists_abs_sub_le hk hz

theorem IsAt.isRounded (h : a.IsAt q) : a.IsRounded q := by
  intro k _ _
  refine ⟨q, h, ?_⟩
  rw [sub_self, abs_zero]
  positivity

section

variable {onInt : Int → Int → Int} {onDouble : Binary64 → Binary64 → Binary64} {f : Rat → Rat → Rat}

theorem IsAt.combine (ha : a.IsAt p) (hb : b.IsAt q)
    (hint : ∀ i j : Int, ((onInt i j : Int) : Rat) = f i j)
    (hdouble : ∀ {x y v w}, (double x).IsAt v → (double y).IsAt w →
      IsRounding (f v w) (onDouble x y))
    (hp : |p| < 2 ^ 53) (hq : |q| < 2 ^ 53) :
    Yields (Number.combine onInt onDouble a b) (·.IsRounded (f p q)) := by
  by_cases hinteger : a.IsInt ∧ b.IsInt
  · obtain ⟨⟨i, rfl⟩, ⟨j, rfl⟩⟩ := hinteger
    obtain rfl : (i : Rat) = p := by cases ha; rfl
    obtain rfl : (j : Rat) = q := by cases hb; rfl
    rw [← hint]
    exact ⟨int (onInt i j), rfl, (isAt_int _).isRounded⟩
  · obtain ⟨x, hx, hxat⟩ := ha.exists_toDouble hp
    obtain ⟨y, hy, hyat⟩ := hb.exists_toDouble hq
    exact ⟨_, combine_of_not_int hinteger hx hy, isRounded_of_isRounding (hdouble hxat hyat)⟩

/-- A result that is a double has no error. -/
theorem IsAt.combine_exact (ha : a.IsAt p) (hb : b.IsAt q)
    (hint : ∀ i j : Int, ((onInt i j : Int) : Rat) = f i j)
    (hdouble : ∀ {x y v w}, (double x).IsAt v → (double y).IsAt w →
      IsRounding (f v w) (onDouble x y))
    (hp : IsExact p) (hq : IsExact q) (hf : IsExact (f p q)) :
    Yields (Number.combine onInt onDouble a b) (·.IsAt (f p q)) := by
  have hpoint {c : Number} {v : Rat} (h : c.IsAt v) (hv : IsExact v) : c.Within v v :=
    ⟨hv, hv, v, h, le_rfl, le_rfl⟩
  have hrange (v w : Rat) (hv : p ≤ v) (hv' : v ≤ p) (hw : q ≤ w) (hw' : w ≤ q) :
      f p q ≤ f v w ∧ f v w ≤ f p q := by
    rw [le_antisymm hv' hv, le_antisymm hw' hw]
    exact ⟨le_rfl, le_rfl⟩
  refine ((hpoint ha hp).combine (hpoint hb hq) hint hdouble hf hf hrange).mono fun c hc => ?_
  obtain ⟨-, -, v, hv, hlow, hhigh⟩ := hc
  rwa [le_antisymm hhigh hlow] at hv

end

theorem IsAt.div (ha : a.IsAt p) (hb : b.IsAt q) (hp : |p| < 2 ^ 53) (hq : |q| < 2 ^ 53)
    (hne : q ≠ 0) : Yields (a.div b) fun c => ∃ x, c = .double x ∧ IsRounding (p / q) x := by
  by_cases hinteger : a.IsInt ∧ b.IsInt
  · obtain ⟨⟨i, rfl⟩, ⟨j, rfl⟩⟩ := hinteger
    obtain rfl : (i : Rat) = p := by cases ha; rfl
    obtain rfl : (j : Rat) = q := by cases hb; rfl
    have hj : j ≠ 0 := by exact_mod_cast hne
    have hone : (1 : Rat) ≤ |(j : Rat)| := by exact_mod_cast Int.one_le_abs hj
    obtain ⟨x, -, hx⟩ := ha.exists_toDouble hp
    have hsmall : |(i : Rat) / j| < Binary64.overflow := by
      rw [abs_div]
      exact (div_le_self (abs_nonneg _) hone).trans_lt (IsExact.lt_overflow ⟨x, hx⟩)
    have hrounding := isRounding_intQuotient i j
    exact ⟨_, intQuotient_of_isFinite hj (Binary64.exists_isAt_iff.mp (hrounding.exists_isAt hsmall)),
      _, rfl, hrounding⟩
  · obtain ⟨x, hx, hxat⟩ := ha.exists_toDouble hp
    obtain ⟨y, hy, hyat⟩ := hb.exists_toDouble hq
    exact ⟨_, div_of_not_int hinteger hx hy (Binary64.isZero_of_ne_zero hyat hne), _, rfl,
      Binary64.isRounding_div hxat hyat⟩

/-! ## Computations with numbers of one size -/

/-- The unit that errors are counted in. A result of magnitude up to `7 * 2 ^ s` is rounded by less. -/
def tick (s : Nat) : Rat := 2 ^ s / 2 ^ 50

theorem tick_pos (s : Nat) : 0 < tick s := by unfold tick; positivity

theorem tick_eq (h : s ≤ 6) : tick s = 1 / 2 ^ (50 - s) := by
  unfold tick
  rw [div_eq_div_iff (by positivity) (by positivity), ← pow_add, one_mul,
    Nat.add_sub_cancel' (by omega)]

theorem tick_le (h : s ≤ 6) : tick s ≤ 1 / 2 ^ 44 := by
  rw [tick_eq h]
  exact one_div_le_one_div_of_le (by positivity) (pow_le_pow_right₀ (by norm_num) (by omega))

/-- The number is off an exact one of this size by at most so many ticks. -/
structure Near (a : Number) (s : Nat) (A : Rat) (n : Nat) : Prop where
  scale : s ≤ 6
  small : |A| ≤ 6 * 2 ^ s
  few : n ≤ 1000000
  isAt : ∃ q, a.IsAt q ∧ |q - A| ≤ n * tick s

namespace Near

theorem of_isAt (h : a.IsAt q) (hs : s ≤ 6) (hq : |q| ≤ 6 * 2 ^ s) : a.Near s q 0 :=
  ⟨hs, hq, Nat.zero_le _, q, h, by simp⟩

theorem mono (h : a.Near s A m) (hle : m ≤ n) (hn : n ≤ 1000000) : a.Near s A n := by
  obtain ⟨hs, hsmall, -, q, hq, herror⟩ := h
  have hcount : (m : Rat) ≤ n := by exact_mod_cast hle
  exact ⟨hs, hsmall, hn, q, hq, herror.trans (mul_le_mul_of_nonneg_right hcount (tick_pos s).le)⟩

/-- Few ticks are less than one. -/
theorem few_ticks (hs : s ≤ 6) (hn : n ≤ 1000000) : (n : Rat) * tick s ≤ 1 := by
  have hn' : (n : Rat) ≤ 1000000 := by exact_mod_cast hn
  calc (n : Rat) * tick s ≤ 1000000 * (1 / 2 ^ 44) :=
        mul_le_mul hn' (tick_le hs) (tick_pos s).le (by norm_num)
    _ ≤ 1 := by norm_num

theorem abs_le_of_few (hs : s ≤ 6) (hA : |A| ≤ 6 * 2 ^ s) (hn : n ≤ 1000000)
    (hq : |q - A| ≤ n * tick s) : |q| ≤ 7 * 2 ^ s := by
  have hsum := abs_add_le (q - A) A
  rw [sub_add_cancel] at hsum
  have hone : (1 : Rat) ≤ 2 ^ s := one_le_pow₀ (by norm_num)
  have := few_ticks hs hn
  linarith

theorem lt_of_abs_le (hs : s ≤ 6) (hq : |q| ≤ 7 * 2 ^ s) : |q| < 2 ^ 53 := by
  have hscale : (2 : Rat) ^ s ≤ 2 ^ 6 := pow_le_pow_right₀ (by norm_num) hs
  linarith

/-- A result near something that is rounded stays near, one tick further off. -/
theorem of_rounding {c : Number} {z : Rat} {r : Nat} (hs : s ≤ 6)
    (hc : c.IsRounded z)
    (hz : |z - E| ≤ r * tick s) (hE : |E| ≤ 6 * 2 ^ s) (hr : r + 1 ≤ 1000000) :
    c.Near s E (r + 1) := by
  have hbound := abs_le_of_few hs hE ((Nat.le_succ r).trans hr) hz
  have hpow : (2 : Rat) ^ s * 2 ^ (50 - s) = 2 ^ 50 := by rw [← pow_add, Nat.add_sub_cancel' (by omega)]
  have hgrid : |z| * 2 ^ (50 - s) ≤ 9007199254740991 := by
    calc |z| * 2 ^ (50 - s) ≤ 7 * 2 ^ s * 2 ^ (50 - s) :=
          mul_le_mul_of_nonneg_right hbound (by positivity)
      _ = 7 * 2 ^ 50 := by rw [mul_assoc, hpow]
      _ ≤ 9007199254740991 := by norm_num
  obtain ⟨v, hv, hround⟩ := hc (50 - s) (by omega) hgrid
  have htick : (1 : Rat) / 2 ^ (50 - s + 1) ≤ tick s := by
    rw [tick_eq hs]
    exact one_div_le_one_div_of_le (by positivity) (pow_le_pow_right₀ (by norm_num) (by omega))
  have hsum := abs_sub_le v z E
  refine ⟨hs, hE, hr, v, hv, ?_⟩
  push_cast
  linarith

/-- The rounding of an exact number is a tick off at most. -/
theorem of_isRounding {x : Binary64} {z : Rat} (h : IsRounding z x) (hs : s ≤ 6)
    (hz : |z| ≤ 6 * 2 ^ s) : (double x).Near s z 1 :=
  of_rounding (r := 0) hs (isRounded_of_isRounding h) (by simp) hz (by norm_num)

/-- What is near something is near what is not far from that. -/
theorem shift (h : a.Near s A m) (k : Nat) (hk : |A - B| ≤ k * tick s) (hB : |B| ≤ 6 * 2 ^ s)
    (hr : m + k ≤ 1000000) : a.Near s B (m + k) := by
  obtain ⟨hs, -, -, q, hq, herror⟩ := h
  have hsum := abs_sub_le q A B
  refine ⟨hs, hB, hr, q, hq, ?_⟩
  push_cast
  linarith

section

variable {onInt : Int → Int → Int} {onDouble : Binary64 → Binary64 → Binary64} {f : Rat → Rat → Rat}

theorem combine (ha : a.Near s A m) (hb : b.Near s B n)
    (hint : ∀ i j : Int, ((onInt i j : Int) : Rat) = f i j)
    (hdouble : ∀ {x y v w}, (double x).IsAt v → (double y).IsAt w →
      IsRounding (f v w) (onDouble x y))
    (hf : ∀ p q, |p - A| ≤ m * tick s → |q - B| ≤ n * tick s → |f p q - E| ≤ r * tick s)
    (hE : |E| ≤ 6 * 2 ^ s) (hr : r + 1 ≤ 1000000) :
    Yields (Number.combine onInt onDouble a b) (·.Near s E (r + 1)) := by
  obtain ⟨hs, hA, hm, p, hp, hperror⟩ := ha
  obtain ⟨-, hB, hn, q, hq, hqerror⟩ := hb
  have hpbound := lt_of_abs_le hs (abs_le_of_few hs hA hm hperror)
  have hqbound := lt_of_abs_le hs (abs_le_of_few hs hB hn hqerror)
  obtain ⟨c, hc, hresult⟩ := hp.combine hq hint hdouble hpbound hqbound
  exact ⟨c, hc, of_rounding hs hresult (hf p q hperror hqerror) hE hr⟩

end

theorem add (ha : a.Near s A m) (hb : b.Near s B n) (h : |A + B| ≤ 6 * 2 ^ s)
    (hr : m + n + 1 ≤ 1000000) : Yields (a.add b) (·.Near s (A + B) (m + n + 1)) := by
  refine ha.combine hb Int.cast_add Binary64.isRounding_add (fun p q hp hq => ?_) h hr
  have hsum := abs_add_le (p - A) (q - B)
  rw [show p - A + (q - B) = p + q - (A + B) by ring] at hsum
  push_cast
  linarith

theorem sub (ha : a.Near s A m) (hb : b.Near s B n) (h : |A - B| ≤ 6 * 2 ^ s)
    (hr : m + n + 1 ≤ 1000000) : Yields (a.sub b) (·.Near s (A - B) (m + n + 1)) := by
  refine ha.combine hb Int.cast_sub Binary64.isRounding_sub (fun p q hp hq => ?_) h hr
  have hdiff := abs_sub (p - A) (q - B)
  rw [show p - A - (q - B) = p - q - (A - B) by ring] at hdiff
  push_cast
  linarith

/-- Each error counts as often in a product as the other factor is large. -/
theorem mul (ha : a.Near s A m) (hb : b.Near s B n) (i j : Nat) (hA : |A| ≤ i) (hB : |B| ≤ j)
    (hij : i * j ≤ 6 * 2 ^ s) (hr : i * n + j * m + 1 + 1 ≤ 1000000) :
    Yields (a.mul b) (·.Near s (A * B) (i * n + j * m + 1 + 1)) := by
  have hsize : |A * B| ≤ 6 * 2 ^ s := by
    rw [abs_mul]
    exact (mul_le_mul hA hB (abs_nonneg _) (Nat.cast_nonneg i)).trans (by exact_mod_cast hij)
  refine ha.combine hb Int.cast_mul Binary64.isRounding_mul (fun p q hp hq => ?_) hsize hr
  have htick := tick_pos s
  have hexpand : p * q - A * B = A * (q - B) + B * (p - A) + (p - A) * (q - B) := by ring
  have hfirst : |A * (q - B)| ≤ i * (n * tick s) := by
    rw [abs_mul]
    exact mul_le_mul hA hq (abs_nonneg _) (Nat.cast_nonneg i)
  have hsecond : |B * (p - A)| ≤ j * (m * tick s) := by
    rw [abs_mul]
    exact mul_le_mul hB hp (abs_nonneg _) (Nat.cast_nonneg j)
  have hboth : |(p - A) * (q - B)| ≤ tick s := by
    have hproduct : (m : Rat) * n ≤ 2 ^ 44 := by
      exact_mod_cast (Nat.mul_le_mul ha.few hb.few).trans (by norm_num)
    calc |(p - A) * (q - B)| = |p - A| * |q - B| := abs_mul _ _
      _ ≤ m * tick s * (n * tick s) := mul_le_mul hp hq (abs_nonneg _) (by positivity)
      _ = m * n * tick s * tick s := by ring
      _ ≤ 2 ^ 44 * (1 / 2 ^ 44) * tick s := by
        gcongr
        exact tick_le ha.scale
      _ = tick s := by norm_num
  rw [hexpand]
  have hsum := abs_add_le (A * (q - B) + B * (p - A)) ((p - A) * (q - B))
  have hsum' := abs_add_le (A * (q - B)) (B * (p - A))
  push_cast
  linarith

/-- A quotient is off by the errors of both sides, each as often as the divisor is small. -/
theorem div (ha : a.Near s A m) (hb : b.Near s B n) (i j : Nat) (hj : 1 ≤ |B| * j)
    (hquotient : |A / B| ≤ i) (hi : 0 < i ∧ i ≤ 6 * 2 ^ s) (hr : 2 * j * (m + i * n) + 1 ≤ 1000000) :
    Yields (a.div b) (·.Near s (A / B) (2 * j * (m + i * n) + 1)) := by
  obtain ⟨hs, hA, hm, p, hp, hperror⟩ := ha
  obtain ⟨-, hB, hn, q, hq, hqerror⟩ := hb
  have htick := tick_pos s
  have hpbound := lt_of_abs_le hs (abs_le_of_few hs hA hm hperror)
  have hqbound := lt_of_abs_le hs (abs_le_of_few hs hB hn hqerror)
  have hj0 : (0 : Rat) < j := pos_of_mul_pos_right (one_pos.trans_le hj) (abs_nonneg B)
  -- the error of the divisor takes at most half of it away
  have hhalf : 1 ≤ |q| * (2 * j) := by
    have hcount : 2 * j * n ≤ 1000000 := by
      have := Nat.mul_le_mul_left (2 * j) (show n ≤ m + i * n by nlinarith [hi.1])
      omega
    have herror := few_ticks hs hcount
    push_cast at herror
    have hsub := abs_sub_abs_le_abs_sub B q
    rw [abs_sub_comm] at hsub
    nlinarith
  have hq0 : 0 < |q| := pos_of_mul_pos_left (one_pos.trans_le hhalf) (by positivity)
  have hne : q ≠ 0 := abs_pos.mp hq0
  have hB0 : B ≠ 0 := abs_pos.mp (pos_of_mul_pos_left (one_pos.trans_le hj) hj0.le)
  have hsize : |A / B| ≤ 6 * 2 ^ s := hquotient.trans (by exact_mod_cast hi.2)
  obtain ⟨c, hc, x, rfl, hresult⟩ := hp.div hq hpbound hqbound hne
  refine ⟨_, hc, of_rounding hs (isRounded_of_isRounding hresult) ?_ hsize hr⟩
  have hexpand : p / q - A / B = (p - A - A / B * (q - B)) / q := by
    field_simp
    ring
  have hnumerator : |p - A - A / B * (q - B)| ≤ (m + i * n) * tick s := by
    have hdiff := abs_sub (p - A) (A / B * (q - B))
    have hsecond : |A / B * (q - B)| ≤ i * (n * tick s) := by
      rw [abs_mul]
      exact mul_le_mul hquotient hqerror (abs_nonneg _) (Nat.cast_nonneg i)
    linarith
  rw [hexpand, abs_div, div_le_iff₀ hq0]
  push_cast
  calc |p - A - A / B * (q - B)| ≤ (m + i * n) * tick s := hnumerator
    _ ≤ (m + i * n) * tick s * (|q| * (2 * j)) := le_mul_of_one_le_right (by positivity) hhalf
    _ = 2 * j * (m + i * n) * tick s * |q| := by ring

/-- From the smallest size to the largest one. -/
theorem scale_up (ha : a.Near 0 A m) {k : Nat} (hk : k ≤ 384) (h : |A| ≤ 1)
    (hr : 6 * m + 1 ≤ 1000000) : Yields (a.mul (int k)) (·.Near 6 (A * k) (6 * m + 1)) := by
  obtain ⟨-, hA, hm, q, hq, herror⟩ := ha
  have hk' : (k : Rat) ≤ 384 := by exact_mod_cast hk
  have hk0 : (0 : Rat) ≤ k := Nat.cast_nonneg k
  have hkbound : |(k : Rat)| < 2 ^ 53 := by
    rw [abs_of_nonneg hk0]
    linarith
  obtain ⟨c, hc, hresult⟩ := hq.combine (isAt_int k) Int.cast_mul Binary64.isRounding_mul
    (lt_of_abs_le (Nat.zero_le 6) (abs_le_of_few (Nat.zero_le 6) hA hm herror)) hkbound
  refine ⟨c, hc, of_rounding le_rfl hresult ?_ ?_ hr⟩
  · rw [Int.cast_natCast, ← sub_mul, abs_mul, abs_of_nonneg hk0]
    have htick := tick_pos 0
    calc |q - A| * k ≤ m * tick 0 * 384 := mul_le_mul herror hk' hk0 (by positivity)
      _ = (6 * m : Nat) * tick 6 := by
        unfold tick
        push_cast
        ring
  · rw [abs_mul, abs_of_nonneg hk0]
    calc |A| * k ≤ 1 * 384 := mul_le_mul h hk' hk0 zero_le_one
      _ ≤ 6 * 2 ^ 6 := by norm_num

theorem abs (ha : a.Near s A m) : a.abs.Near s |A| m := by
  obtain ⟨hs, hA, hm, p, hp, herror⟩ := ha
  exact ⟨hs, by rwa [abs_abs], hm, |p|, isAt_abs hp, (abs_abs_sub_abs_le p A).trans herror⟩

/-! ### Comparisons -/

theorem sub_le_of_lt (ha : a.Near s A m) (hb : b.Near s B n) (h : a.lt b = true) :
    A - B ≤ (m + n : Nat) * tick s := by
  obtain ⟨-, -, -, p, hp, hperror⟩ := ha
  obtain ⟨-, -, -, q, hq, hqerror⟩ := hb
  have hlt := (lt_iff hp hq).mp h
  have hlow := (abs_le.mp hperror).1
  have hhigh := (abs_le.mp hqerror).2
  push_cast
  linarith

/-- What is near something further off than its error is not zero. -/
theorem equals_zero_eq_false (ha : a.Near s A n) (h : n * tick s < |A|) : a.equals 0 = false := by
  obtain ⟨-, -, -, p, hp, herror⟩ := ha
  rw [Bool.eq_false_iff]
  intro hzero
  obtain rfl := (equals_iff hp isAt_zero).mp hzero
  rw [zero_sub, abs_neg] at herror
  exact absurd herror (not_le.mpr h)

theorem sub_le_of_not_lt (ha : a.Near s A m) (hb : b.Near s B n) (h : ¬a.lt b = true) :
    B - A ≤ (m + n : Nat) * tick s := by
  obtain ⟨-, -, -, p, hp, hperror⟩ := ha
  obtain ⟨-, -, -, q, hq, hqerror⟩ := hb
  have hle := not_lt.mp fun hlt => h ((lt_iff hp hq).mpr hlt)
  have hhigh := (abs_le.mp hperror).2
  have hlow := (abs_le.mp hqerror).1
  push_cast
  linarith

end Near

end Number

end CssValues
