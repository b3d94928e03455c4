import CssValues.Proofs.Calc.Grammar
import CssValues.Proofs.Context
import CssValues.Proofs.Number.Monotone
import CssValues.Proofs.Quantity.Reading

/-!
# Sizes and plain pixels

A value is resolved as a size or as plain pixels, and the two go through the forms of values in
different orders. What either comes to is told by the reader of the form alone
(`Resolver.toOption_size_of_valid`, `Resolver.toOption_size_of_not_valid` and their companions), so
they agree on everything but percentages. Main result: `Resolver.pixels_of_size`.
-/

namespace CssValues

/-! ## Less than nothing -/

namespace Binary64

variable {x : Binary64} {v : Rat}

/-- A double is taken from zero without rounding. -/
theorem isAt_zero_sub (h : (Number.double x).IsAt v) :
    (Number.double ((zero false).sub x)).IsAt (-v) := by
  have hexact : IsExact (-v) := ⟨x.neg, isAt_neg h⟩
  have hround : IsRounding (-v) ((zero false).sub x) := by
    rw [← zero_sub]
    exact isRounding_sub (isAt_zero_double false) h
  obtain ⟨w, hw, hlow, hhigh⟩ := hround.between hexact hexact le_rfl le_rfl
  rwa [le_antisymm hlow hhigh]

theorem isFinite_zero_sub (x : Binary64) : ((zero false).sub x).isFinite = x.isFinite := by
  cases x with
  | finite negative m e h =>
    obtain ⟨_, _, _, _, hx, -⟩ := isAt_double.mp (isAt_zero_sub (Number.isAt_finite negative h))
    rw [hx]
    rfl
  | infinite negative => rfl
  | nan => rfl

end Binary64

theorem Number.zero_sub_double (x : Binary64) :
    Number.sub 0 (.double x) = .ok (.double ((Binary64.zero false).sub x)) := by
  have hzero : Number.toDouble 0 = .ok (Binary64.zero false) := rfl
  show (do return double ((← Number.toDouble 0).sub x) : Except Fault Number) = _
  rw [hzero]
  rfl

theorem CalcExpression.isPercentageMinusPixels_iff {e : CalcExpression} :
    e.isPercentageMinusPixels = true
      ↔ e.left.unit = .percent ∧ e.operator = .minus ∧ ∃ u, e.right.unit = .length u := by
  obtain ⟨⟨x, u⟩, o, ⟨y, v⟩⟩ := e
  cases v <;> simp [isPercentageMinusPixels, Term.isPercentage, and_comm]

theorem Percentage.read_trim (t : Text) : read t.trim = read t := by
  simp only [read, Text.trim_trim]

namespace Resolver

variable {c : Context} {t : Text}

/-! ## Results without a reason -/

/-- What has no fault gives its value, if there is one. -/
theorem Answers.result_attempt {α : Type} {p : α → Prop} {r : Except Refusal α}
    (h : Answers p r) : (attempt r).result = .ok r.toOption := by
  cases r with
  | ok a => rfl
  | error why => exact h.attempt_eq_none nofun

theorem eq_of_toOption {α : Type} {r : Except Refusal α} {a : α} (h : r.toOption = some a) :
    r = .ok a := by
  cases r with
  | ok b => exact congrArg _ (Option.some.inj h)
  | error why => cases h

/-- An attempt that returns gives the value, if there is one. -/
theorem toOption_of_attempt {α : Type} {r : Except Refusal α} {o : Option α}
    (h : (attempt r).result = .ok o) : r.toOption = o := by
  cases r with
  | ok a => cases h; rfl
  | error why => cases why <;> cases h <;> rfl

theorem toOption_finite {n : Number} {b : Bool} (h : n.isFinite = .ok b) (t : Text) :
    (finite t (.ok n)).toOption = if b then some n else none := by
  unfold finite
  simp only [h]
  cases b <;> rfl

/-- The text is only named in the reason. -/
theorem toOption_finite_congr (s t : Text) (r : Except Fault Number) :
    (finite s r).toOption = (finite t r).toOption := by
  unfold finite
  split
  · rfl
  · split <;> rfl

theorem toOption_map {α β : Type} (f : α → β) (r : Except Refusal α) :
    (r.map f).toOption = r.toOption.map f := by
  cases r <;> rfl

theorem isValid_trim (t : Text) : CalcSource.isValid t.trim = CalcSource.isValid t := by
  simp only [CalcSource.isValid, CalcSource.body?, Text.trim_trim]

/-! ## Calculations -/

theorem toOption_calculation (c : Context) (t : Text) : (calculation c t).toOption
    = (CalcExpression.read t).toOption.bind fun e => (finite t (e.evaluate c)).toOption := by
  unfold calculation
  cases CalcExpression.read t <;> rfl

/-- Without the shape of a calculation there is none. -/
theorem toOption_calculation_of_not_valid (h : CalcSource.isValid t = false) :
    (calculation c t).toOption = none := by
  rw [toOption_calculation]
  cases he : CalcExpression.read t with
  | error why => rfl
  | ok e =>
    rw [CalcExpression.isValid_of_read he] at h
    cases h

theorem toOption_pixels_of_valid (h : CalcSource.isValid t = true) :
    (pixels c t).toOption = (calculation c t).toOption := by
  unfold pixels
  dsimp only
  rw [if_pos ((isValid_trim t).trans h), toOption_calculation, toOption_calculation,
    CalcExpression.read_trim]
  exact congrArg _ (funext fun e => toOption_finite_congr _ _ _)

theorem toOption_size_of_valid (h : CalcSource.isValid t = true) : (size c t).toOption
    = (CalcExpression.read t).toOption.bind fun e =>
        if e.isPercentageMinusPixels then some (.percentage (.clamp e.left.value))
        else (finite t (e.evaluate c)).toOption.map .pixels := by
  have hvalid := (isValid_trim t).trans h
  have hne : t.trim.isEmpty = false := by
    cases htrim : t.trim with
    | nil =>
      rw [htrim] at hvalid
      cases hvalid
    | cons _ _ => rfl
  unfold size calcSize
  dsimp only
  rw [if_neg (by simp [hne]), if_pos hvalid, CalcExpression.read_trim]
  cases CalcExpression.read t with
  | error why => rfl
  | ok e =>
    show Except.toOption (if _ then _ else _) = if _ then _ else _
    by_cases hshare : e.isPercentageMinusPixels = true
    · rw [if_pos hshare, if_pos hshare]
      rfl
    · rw [if_neg hshare, if_neg hshare, toOption_map]

/-! ## Lengths and percentages -/

theorem toOption_pixels_of_not_valid (h : CalcSource.isValid t = false) : (pixels c t).toOption
    = (Length.read t).toOption.bind fun l => (finite t (l.toPixels c)).toOption := by
  unfold pixels
  dsimp only
  rw [if_neg (by simp [isValid_trim, h]), Length.read_trim]
  cases Length.read t with
  | error why => cases why <;> rfl
  | ok l => rfl

/-- A length is none of the forms that sizes are checked for before. -/
theorem forms_of_read_length {l : Length} (h : Length.read t = .ok l) :
    t.trim.isEmpty = false ∧ ['%'].isSuffixOf t.trim = false
      ∧ isNonNumericKeyword t.trim = false := by
  obtain ⟨number, unitName, -, hsplit, hletters, -⟩ := Length.exists_parts h
  obtain ⟨ht, hne, hnumber⟩ := splitNumber?_chars hsplit
  refine ⟨by simp [ht, hne], ?_, Length.isNonNumericKeyword_of_splitNumber? hsplit⟩
  rw [Bool.eq_false_iff, Ne, List.isSuffixOf_iff_suffix]
  rintro ⟨front, hfront⟩
  have hmem : '%' ∈ number ++ unitName :=
    ht ▸ hfront ▸ List.mem_append_right front List.mem_cons_self
  rcases List.mem_append.mp hmem with hmem | hmem
  · exact absurd (hnumber '%' hmem) (by decide)
  · exact absurd (List.all_eq_true.mp hletters '%' hmem) (by decide)

theorem forms_of_read_percentage {p : Percentage} (h : Percentage.read t = .ok p) :
    t.trim.isEmpty = false ∧ ['%'].isSuffixOf t.trim = true := by
  unfold Percentage.read at h
  split at h
  · next number hsplit =>
    obtain ⟨ht, hne, -⟩ := splitNumber?_chars hsplit
    exact ⟨by simp [ht], List.isSuffixOf_iff_suffix.mpr ⟨number, ht.symm⟩⟩
  · cases h

/-- What is no calculation has the size of a percentage, or that in pixels. -/
theorem toOption_size_of_not_valid (h : CalcSource.isValid t = false) : (size c t).toOption
    = match Percentage.read t with
      | .ok p => some (.percentage p)
      | .error _ => (pixels c t).toOption.map .pixels := by
  have hvalid : ¬CalcSource.isValid t.trim = true := by simp [isValid_trim, h]
  rw [toOption_pixels_of_not_valid h]
  unfold size
  dsimp only
  rw [if_neg hvalid, Length.read_trim, Percentage.read_trim]
  cases hp : Percentage.read t with
  | ok p =>
    obtain ⟨hne, hpercent⟩ := forms_of_read_percentage hp
    rw [if_neg (by simp [hne]), if_pos hpercent]
    rfl
  | error why =>
    cases hl : Length.read t with
    | ok l =>
      obtain ⟨hne, hpercent, hkeyword⟩ := forms_of_read_length hl
      rw [if_neg (by simp [hne]), if_neg (by simp [hpercent]), if_neg (by simp [hkeyword])]
      exact toOption_map _ _
    | error why' =>
      -- nothing is read, whatever the reason that is found first
      split
      · rfl
      split
      · rfl
      split
      · rfl
      · cases why' <;> rfl

/-! ## The two together -/

/-- A text that is a percentage and nothing else. -/
def IsPercentageText (t : Text) (p : Percentage) : Prop :=
  ∃ (s : Sign) (q : Quantity) (x : Binary64), q.IsWritten s t ∧ q.unit = .percent
    ∧ Binary64.IsNearest s.isMinus q.literal.magnitude x ∧ p = .clamp (.double x)

/-- A text that takes a length, of `z` pixels in the context, from a percentage. -/
def IsPercentageLess (c : Context) (t : Text) (p : Percentage) (z : Binary64) : Prop :=
  ∃ (b : CalcBody) (u : LengthUnit) (x y : Binary64), b.IsWritten t ∧ b.left.unit = .percent
    ∧ b.operator = .minus ∧ b.right.unit = .length u
    ∧ Binary64.IsNearest false b.left.literal.magnitude x ∧ p = .clamp (.double x)
    ∧ Binary64.IsNearest false b.right.literal.magnitude y
    ∧ u.toPixels (.double y) c = .ok (.double z)

/-- What a text comes to as a size, and what it comes to in pixels. -/
inductive SizedAs (c : Context) (t : Text) : Option Size → Option Number → Prop where
  | neither : SizedAs c t none none
  | pixels (n : Number) : SizedAs c t (some (.pixels n)) (some n)
  | percentage {p : Percentage} (h : IsPercentageText t p) : SizedAs c t (some (.percentage p)) none
  | difference {p : Percentage} {z : Binary64} {n : Number} (h : IsPercentageLess c t p z)
    (hfinite : z.isFinite = true) (hn : n.equals (.double z.neg) = true) :
    SizedAs c t (some (.percentage p)) (some n)
  | overflow {p : Percentage} {z : Binary64} (h : IsPercentageLess c t p z)
    (hfinite : z.isFinite = false) : SizedAs c t (some (.percentage p)) none

theorem sizedAs_pixels (o : Option Number) : SizedAs c t (o.map .pixels) o := by
  cases o with
  | none => exact .neither
  | some n => exact .pixels n

/-- A percentage is no length. -/
theorem toOption_pixels_of_percentage {p : Percentage} (hvalid : CalcSource.isValid t = false)
    (h : Percentage.read t = .ok p) : (pixels c t).toOption = none := by
  rw [toOption_pixels_of_not_valid hvalid]
  cases hl : Length.read t with
  | error why => rfl
  | ok l =>
    have hpercent := (forms_of_read_percentage h).2
    rw [(forms_of_read_length hl).2.1] at hpercent
    cases hpercent

theorem sizedAs_percentage {p : Percentage} (h : Percentage.read t = .ok p) :
    SizedAs c t (some (.percentage p)) none := by
  obtain ⟨s, q, x, hq, hunit, hx, hp⟩ := Percentage.read_eq_ok_iff.mp h
  exact .percentage ⟨s, q, x, hq, hunit, (q.literal.readFinite?_text_iff s).mp hx, hp⟩

theorem equals_zero_sub {z : Binary64} (h : z.isFinite = true) :
    (Number.double ((Binary64.zero false).sub z)).equals (.double z.neg) = true := by
  obtain ⟨v, hv⟩ := Number.exists_isAt h
  exact (Number.equals_iff (Binary64.isAt_zero_sub hv) (Binary64.isAt_neg hv)).mpr rfl

/-- A percentage counts as nothing, so that less a length comes to the length below zero. -/
theorem sizedAs_difference {e : CalcExpression} (he : CalcExpression.read t = .ok e)
    (h : e.isPercentageMinusPixels = true) :
    SizedAs c t (some (.percentage (.clamp e.left.value))) (finite t (e.evaluate c)).toOption := by
  obtain ⟨b, x, y, hb, hx, hy, rfl⟩ := CalcExpression.read_eq_ok_iff.mp he
  obtain ⟨hleft, hminus, u, hright⟩ := CalcExpression.isPercentageMinusPixels_iff.mp h
  have hleft : b.left.unit = .percent := hleft
  have hminus : b.operator = .minus := hminus
  have hright : b.right.unit = .length u := hright
  obtain ⟨scale, -, -, hscale⟩ := u.exists_scale c
  have hless : IsPercentageLess c t (.clamp (.double x)) (scale.apply y) :=
    ⟨b, u, x, y, hb, hleft, hminus, hright, (b.left.literal.readFinite?_text_iff .absent).mp hx,
      rfl, (b.right.literal.readFinite?_text_iff .absent).mp hy, hscale y⟩
  have hevaluate : (CalcExpression.ofBody b x y).evaluate c
      = .ok (.double ((Binary64.zero false).sub (scale.apply y))) := by
    rw [← Number.zero_sub_double, CalcExpression.evaluate, CalcExpression.ofBody, hleft, hminus,
      hright]
    simp only [Term.toPixels, hscale y]
    rfl
  rw [hevaluate, toOption_finite (Number.isFinite_double _), Binary64.isFinite_zero_sub]
  cases hz : (scale.apply y).isFinite with
  | true =>
    rw [if_pos rfl]
    exact .difference hless hz (equals_zero_sub hz)
  | false =>
    rw [if_neg (by decide)]
    exact .overflow hless hz

theorem sizedAs (c : Context) (t : Text) : SizedAs c t (size c t).toOption (pixels c t).toOption := by
  cases hvalid : CalcSource.isValid t with
  | true =>
    rw [toOption_size_of_valid hvalid, toOption_pixels_of_valid hvalid, toOption_calculation]
    cases he : CalcExpression.read t with
    | error why => exact .neither
    | ok e =>
      show SizedAs c t (if _ then _ else _) (finite t (e.evaluate c)).toOption
      by_cases hshare : e.isPercentageMinusPixels = true
      · rw [if_pos hshare]
        exact sizedAs_difference he hshare
      · rw [if_neg hshare]
        exact sizedAs_pixels _
  | false =>
    rw [toOption_size_of_not_valid hvalid]
    cases hp : Percentage.read t with
    | ok p =>
      rw [toOption_pixels_of_percentage hvalid hp]
      exact sizedAs_percentage hp
    | error why => exact sizedAs_pixels _

/-- A calculation is resolved like any text, if it has the shape of one. -/
theorem toOption_calculation_eq (c : Context) (t : Text) : (calculation c t).toOption
    = if CalcSource.isValid t then (pixels c t).toOption else none := by
  cases hvalid : CalcSource.isValid t with
  | true => exact (toOption_pixels_of_valid hvalid).symm
  | false => exact toOption_calculation_of_not_valid hvalid

/-- **Agreement.** A text that has no size has no pixels, and the size of a text in pixels is what it
comes to in pixels. A percentage has no pixels, but for one that a length is taken from: there these
are the pixels of the length below zero, if they are finite. A calculation comes to the same wherever
a text has the shape of one, and a spacing is never less than nothing. -/
theorem pixels_of_size (c : Context) (t : Text) : ∃ (s : Option Size) (n : Option Number),
    (attempt (size c t)).result = .ok s ∧ (attempt (pixels c t)).result = .ok n
      ∧ SizedAs c t s n
      ∧ (attempt (calculation c t)).result = .ok (if CalcSource.isValid t then n else none)
      ∧ ∀ fallback, (spacingOr c fallback (.text t)).result
        = .ok (n.elim fallback fun n => .number (Number.max 0 n)) := by
  have hpixels := (answers_pixels c t).result_attempt
  refine ⟨_, _, (answers_size c t).result_attempt, hpixels, sizedAs c t, ?_, fun fallback => ?_⟩
  · rw [(answers_calculation c t).result_attempt, toOption_calculation_eq]
  · exact spacingOr_eq c fallback (.text t) hpixels

end Resolver

end CssValues
