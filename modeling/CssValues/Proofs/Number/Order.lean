import CssValues.Context
import CssValues.Proofs.Number.Layout

/-!
# Order and equality of numbers

Numbers are compared by their exact values, so an integer and a double compare like two rationals.
-/

namespace CssValues.Number

variable {a b : Number} {p q : Rat}

/-- The number stands at a rational on the number line: it is an integer or a finite double. -/
def IsAt (a : Number) (q : Rat) : Prop := a.position? = some (.point q)

theorem IsAt.unique (hp : a.IsAt p) (hq : a.IsAt q) : p = q := by
  unfold IsAt at hp hq
  rw [hp] at hq
  exact Position.point.inj (Option.some.inj hq)

theorem isAt_int (n : Int) : (int n).IsAt n := rfl

theorem isAt_zero : (0 : Number).IsAt 0 := rfl

theorem isAt_finite (negative : Bool) {m : Nat} {e : Int} (h : FitsBinary64 m e) :
    (double (.finite negative m e h)).IsAt (Binary64.exact negative m e) := rfl

theorem exists_isAt {x : Binary64} (hx : x.isFinite = true) : ∃ q, (double x).IsAt q := by
  cases x with
  | finite negative m e h => exact ⟨_, isAt_finite negative h⟩
  | infinite negative => cases hx
  | nan => cases hx

/-- NaN alone stands nowhere. -/
theorem eq_nan_of_position? (h : a.position? = none) : a = .double .nan := by
  rcases a with n | ⟨negative, m, e, hfits⟩ | negative | -
  · cases h
  · cases h
  · cases h
  · rfl

theorem lt_iff (ha : a.IsAt p) (hb : b.IsAt q) : a.lt b = true ↔ p < q := by
  unfold IsAt at ha hb
  simp [lt, ha, hb, Position.lt]

theorem equals_iff (ha : a.IsAt p) (hb : b.IsAt q) : a.equals b = true ↔ p = q := by
  unfold IsAt at ha hb
  simp [equals, ha, hb, Position.same]

theorem equals_self {x : Binary64} (hx : x.isFinite = true) :
    (double x).equals (double x) = true := by
  obtain ⟨q, hq⟩ := exists_isAt hx
  exact (equals_iff hq hq).mpr rfl

theorem equals_self_of_isFinite {n : Number} (h : n.isFinite = .ok true) :
    n.equals n = true := by
  cases n with
  | int n => exact (equals_iff (isAt_int n) (isAt_int n)).mpr rfl
  | double x => exact equals_self (Except.ok.inj h)

theorem max_of_lt (h : a.lt b = true) : a.max b = b := if_pos h

theorem max_of_not_lt (h : a.lt b = false) : a.max b = a := if_neg (by simp [h])

theorem isAt_max (ha : a.IsAt p) (hb : b.IsAt q) : (a.max b).IsAt (Max.max p q) := by
  unfold max
  split
  · next h => rwa [max_eq_right ((lt_iff ha hb).mp h).le]
  · next h => rwa [max_eq_left (not_lt.mp fun hlt => h ((lt_iff ha hb).mpr hlt))]

theorem isAt_min (ha : a.IsAt p) (hb : b.IsAt q) : (a.min b).IsAt (Min.min p q) := by
  unfold min
  split
  · next h => rwa [min_eq_right ((lt_iff hb ha).mp h).le]
  · next h => rwa [min_eq_left (not_lt.mp fun hlt => h ((lt_iff hb ha).mpr hlt))]

theorem lt_int {m n : Int} : (int m).lt (int n) = true ↔ m < n := by
  rw [lt_iff (isAt_int m) (isAt_int n), Int.cast_lt]

theorem max_int (m n : Int) : (int m).max (int n) = int (Max.max m n) := by
  unfold max
  split
  · next h => rw [max_eq_right (lt_int.mp h).le]
  · next h => rw [max_eq_left (not_lt.mp fun hlt => h (lt_int.mpr hlt))]

theorem min_int (m n : Int) : (int m).min (int n) = int (Min.min m n) := by
  unfold min
  split
  · next h => rw [min_eq_right (lt_int.mp h).le]
  · next h => rw [min_eq_left (not_lt.mp fun hlt => h (lt_int.mpr hlt))]

/-- What is above zero has no sign. -/
theorem isNegative_of_pos {x : Binary64} (h : lt 0 (double x) = true) : x.isNegative = false := by
  cases x with
  | finite negative m e hfits =>
    have hpos := (lt_iff isAt_zero (isAt_finite negative hfits)).mp h
    cases negative with
    | false => rfl
    | true =>
      have := Binary64.exact_nonneg m e
      rw [Binary64.exact_eq, if_pos rfl] at hpos
      linarith
  | infinite negative => cases negative <;> [rfl; cases h]
  | nan => rfl

/-! ## The nearest double -/

theorem exists_isAt_of_isDimension {n : Number} (h : n.isDimension = true) :
    ∃ q, n.IsAt q ∧ 0 < q := by
  obtain ⟨hfinite, hpos⟩ := Bool.and_eq_true_iff.mp h
  cases n with
  | int n => exact ⟨n, isAt_int n, (lt_iff isAt_zero (isAt_int n)).mp hpos⟩
  | double x =>
    obtain ⟨q, hq⟩ := exists_isAt (x := x) hfinite
    exact ⟨q, hq, (lt_iff isAt_zero hq).mp hpos⟩

/-- The double nearest to a positive number depends on its value only, not on its kind. -/
theorem toDouble_of_isAt {n : Number} (h : n.IsAt q) (hq : 0 < q) :
    n.toDouble = match Binary64.ofMagnitude false q with
      | .infinite _ => .error .integerTooLarge
      | x => .ok x := by
  cases n with
  | int n =>
    obtain rfl : (n : Rat) = q := by cases h; rfl
    have hofInt : Binary64.ofInt n = Binary64.ofMagnitude false n := if_neg hq.not_gt
    unfold toDouble
    cases hx : Binary64.ofMagnitude false n <;> simp only [hofInt, hx]
  | double x =>
    cases x with
    | finite negative m e hfits =>
      have hsign := isNegative_of_pos ((lt_iff isAt_zero h).mpr hq)
      obtain rfl : negative = false := hsign
      obtain rfl : Binary64.exact false m e = q := by cases h; rfl
      rw [Binary64.ofMagnitude_exact false hfits]
      rfl
    | infinite negative => cases negative <;> cases h
    | nan => cases h

/-- An integer that is not rounded to an infinity has a double. -/
theorem toDouble_int {n : Int} (h : (Binary64.ofInt n).isFinite = true) :
    (int n).toDouble = .ok (Binary64.ofInt n) := by
  unfold toDouble
  dsimp only
  split
  · next negative heq =>
    rw [heq] at h
    cases h
  · rfl

/-! ## Arithmetic -/

def IsInt (n : Number) : Prop := ∃ k, n = .int k

theorem not_isInt_double (x : Binary64) : ¬(double x).IsInt := nofun

section

variable {onInt : Int → Int → Int} {onDouble : Binary64 → Binary64 → Binary64} {x y : Binary64}

/-- Numbers that are not both integers are taken as doubles. -/
theorem combine_of_not_int (h : ¬(a.IsInt ∧ b.IsInt)) (hx : a.toDouble = .ok x)
    (hy : b.toDouble = .ok y) : combine onInt onDouble a b = .ok (.double (onDouble x y)) := by
  have hconverted : (do return double (onDouble (← a.toDouble) (← b.toDouble))
      : Except Fault Number) = .ok (.double (onDouble x y)) := by
    rw [hx, hy]
    rfl
  cases a with
  | double _ => exact hconverted
  | int m =>
    cases b with
    | double _ => exact hconverted
    | int n => exact absurd ⟨⟨m, rfl⟩, ⟨n, rfl⟩⟩ h

theorem div_of_not_int (h : ¬(a.IsInt ∧ b.IsInt)) (hx : a.toDouble = .ok x)
    (hy : b.toDouble = .ok y) (hzero : y.isZero = false) :
    a.div b = .ok (.double (x.div y)) := by
  have hconverted : (do
      let x ← a.toDouble
      let y ← b.toDouble
      if y.isZero then .error .divisionByZero else return .double (x.div y)
      : Except Fault Number) = .ok (.double (x.div y)) := by
    rw [hx, hy]
    show (if y.isZero then _ else _) = _
    rw [hzero]
    rfl
  cases a with
  | double _ => exact hconverted
  | int m =>
    cases b with
    | double _ => exact hconverted
    | int n => exact absurd ⟨⟨m, rfl⟩, ⟨n, rfl⟩⟩ h

end

end CssValues.Number
