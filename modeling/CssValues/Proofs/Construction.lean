import CssValues.Proofs.Context.Changes
import CssValues.Proofs.Conversion

/-!
# Values made by callers

Contexts, lengths and percentages are made of values of any kind. An integer beyond the doubles is a
fault in all three (`Value.TooLarge`), as whether it is finite cannot be asked; every other value is
either refused with a message that shows it or makes what it should. Main result: `constructs`.
-/

namespace CssValues

/-! ## Numbers within the doubles -/

open Binary64 (overflow)

/-- The value is an integer beyond the doubles. -/
def Value.TooLarge (v : Value) : Prop := ∃ k : Int, v = .number (.int k) ∧ overflow ≤ |(k : Rat)|

/-- The value is a number within the doubles. -/
def Value.IsWithin (v : Value) : Prop := ∃ n q, v = .number n ∧ n.IsAt q ∧ |q| < overflow

namespace Number

variable {n : Number} {k : Int}

theorem toDouble_of_overflow (h : overflow ≤ |(k : Rat)|) :
    (int k).toDouble = .error .integerTooLarge := by
  have hrounding := isRounding_ofInt k
  have hlarge : _ = false := Bool.eq_false_iff.mpr (hrounding.isFinite_iff.not.mpr h.not_gt)
  obtain ⟨negative, heq⟩ := hrounding.exists_infinite hlarge
  rw [toDouble, heq]

theorem toDouble_of_lt (h : |(k : Rat)| < overflow) :
    ∃ x, (int k).toDouble = .ok x ∧ x.isFinite = true := by
  have hfinite := (isRounding_ofInt k).isFinite_iff.mpr h
  exact ⟨_, toDouble_int hfinite, hfinite⟩

/-- Every number but the integers beyond the doubles has a double. -/
theorem exists_toDouble_of_not_large (h : ¬(Value.number n).TooLarge) :
    ∃ x, n.toDouble = .ok x := by
  cases n with
  | int k =>
    obtain ⟨x, hx, -⟩ := toDouble_of_lt (not_le.mp fun hlarge => h ⟨k, rfl, hlarge⟩)
    exact ⟨x, hx⟩
  | double x => exact ⟨x, rfl⟩

/-- No double but NaN itself is one. -/
theorem isNaN_of_toDouble {x : Binary64} (hx : n.toDouble = .ok x) (h : n ≠ .double .nan) :
    x.isNaN = false := by
  cases n with
  | int k =>
    rcases lt_or_ge |(k : Rat)| overflow with hless | hlarge
    · obtain ⟨y, hy, hfinite⟩ := toDouble_of_lt hless
      obtain rfl : y = x := Except.ok.inj (hy.symm.trans hx)
      cases y <;> [rfl; rfl; cases hfinite]
    · rw [toDouble_of_overflow hlarge] at hx
      cases hx
  | double y =>
    cases hx
    cases x with
    | finite negative m e hfits => rfl
    | infinite negative => rfl
    | nan => exact absurd rfl h

theorem hasFiniteDouble_iff : n.hasFiniteDouble = true ↔ (Value.number n).IsWithin := by
  constructor
  · intro h
    obtain ⟨x, hx, hfinite⟩ := exists_toDouble h
    cases n with
    | int k =>
      refine ⟨_, k, rfl, isAt_int k, not_le.mp fun hlarge => ?_⟩
      rw [toDouble_of_overflow hlarge] at hx
      cases hx
    | double y =>
      obtain rfl : y = x := Except.ok.inj hx
      obtain ⟨q, hq⟩ := exists_isAt hfinite
      exact ⟨_, q, rfl, hq, Binary64.IsExact.lt_overflow ⟨y, hq⟩⟩
  · rintro ⟨n', q, heq, hq, hless⟩
    obtain rfl : n = n' := by cases heq; rfl
    cases n with
    | int k =>
      obtain rfl := hq.unique (isAt_int k)
      obtain ⟨x, hx, hfinite⟩ := toDouble_of_lt hless
      rw [hasFiniteDouble, hx]
      exact hfinite
    | double x => exact Binary64.exists_isAt_iff.mp ⟨q, hq⟩

end Number

/-! ## Outcomes -/

/-- What comes of a value: a fault if it is too large, what it should make if it is accepted, and a
refusal otherwise. -/
structure Settles {α : Type} (r : Except Error α) (v : Value) (accepted : Prop) (refusal : Error)
    (p : α → Prop) : Prop where
  fault : v.TooLarge → r = .error (.fault .integerTooLarge)
  refused : ¬v.TooLarge → ¬accepted → r = .error refusal
  made : accepted → ∃ a, r = .ok a ∧ p a

theorem Settles.mono {α : Type} {r : Except Error α} {v : Value} {accepted : Prop} {refusal : Error}
    {p q : α → Prop} (h : Settles r v accepted refusal p) (hpq : ∀ a, p a → q a) :
    Settles r v accepted refusal q where
  fault := h.fault
  refused := h.refused
  made haccepted := by
    obtain ⟨a, ha, hp⟩ := h.made haccepted
    exact ⟨a, ha, hpq a hp⟩

/-! ## Parameters of a context -/

namespace Dimension

/-- The refusal of a value that is no finite positive number. -/
def refusal (name : Text) : Value → Error
  | .number n => .dimensionNotPositive name (.number n)
  | v => .dimensionNotNumber name v

theorem settles_ofValue (name : Text) (v : Value) :
    Settles (ofValue name v) v v.IsDimension (refusal name v) fun d => v = .number d.value where
  fault := by
    rintro ⟨k, rfl, hlarge⟩
    unfold ofValue
    simp only [Number.toDouble_of_overflow hlarge]
  refused hsmall hnot := by
    cases v with
    | number n =>
      obtain ⟨x, hx⟩ := Number.exists_toDouble_of_not_large hsmall
      have hdimension : ¬n.isDimension = true := fun h => hnot ⟨n, rfl, h⟩
      unfold ofValue
      simp only [hx]
      exact dif_neg hdimension
    | _ => rfl
  made := by
    intro h
    obtain ⟨d, hd⟩ := exists_ofValue_iff.mpr h
    exact ⟨d, hd, ofValue_eq_ok_iff.mp hd⟩

end Dimension

namespace Context

variable (values : Field → Value)

/-- The context of one value for each parameter. -/
def ofFields : Except Error Context :=
  ofValues (values .viewportWidth) (values .viewportHeight) (values .fontSize)

theorem ofFields_eq : ofFields values = gather fun f => Dimension.ofValue f.name (values f) := rfl

variable {values}

theorem ofFields_of_dimensions (h : ∀ f, (values f).IsDimension) :
    ∃ c, ofFields values = .ok c ∧ ∀ f, values f = .number (c.get f).value := by
  have hall (f : Field) : ∃ d, Dimension.ofValue f.name (values f) = .ok d :=
    Dimension.exists_ofValue_iff.mpr (h f)
  obtain ⟨c, hc⟩ := exists_gather_iff.mpr hall
  exact ⟨c, hc, fun f => Dimension.ofValue_eq_ok_iff.mp (gather_eq_ok_iff.mp hc f)⟩

/-- **First refusal.** It is the refusal of the context. -/
theorem ofFields_error {f : Field} {e : Error} (hearlier : ∀ g ∈ f.earlier, (values g).IsDimension)
    (h : Dimension.ofValue f.name (values f) = .error e) : ofFields values = .error e := by
  rw [ofFields_eq, gather_eq_error_iff]
  exact ⟨f, h, fun g hg => Dimension.exists_ofValue_iff.mpr (hearlier g hg)⟩

end Context

/-! ## Lengths -/

namespace Length

theorem settles_ofValue (v : Value) (u : LengthUnit) :
    Settles (ofValue v u) v v.IsWithin (.lengthNotFinite v)
      fun l => v = .number l.value ∧ l.unit = u where
  fault := by
    rintro ⟨k, rfl, hlarge⟩
    simp only [ofValue, ofNumber, Number.toDouble_of_overflow hlarge]
  refused hsmall hnot := by
    cases v with
    | number n =>
      obtain ⟨x, hx⟩ := Number.exists_toDouble_of_not_large hsmall
      simp only [ofValue, ofNumber, hx]
      exact dif_neg (Number.hasFiniteDouble_iff.not.mpr hnot)
    | _ => rfl
  made := by
    rintro ⟨n, q, rfl, hq, hless⟩
    have hfinite := Number.hasFiniteDouble_iff.mpr ⟨n, q, rfl, hq, hless⟩
    obtain ⟨x, hx, -⟩ := Number.exists_toDouble hfinite
    refine ⟨⟨n, u, hfinite⟩, ?_, rfl, rfl⟩
    simp only [ofValue, ofNumber, hx]
    exact dif_pos hfinite

/-- A unit may be given by its name. -/
theorem ofParts_of_lookup? {t : Text} {u : LengthUnit} (h : LengthUnit.lookup? t = some u)
    (v : Value) : ofParts v (.text t) = ofValue v u := by
  have hsame (n : Number) : ofParts (.number n) (.text t) = ofNumber n u := by
    simp only [ofParts, ofValue, ofNumber, h]
    split
    · rfl
    · split <;> rfl
  cases v with
  | number n => exact hsame n
  | _ => rfl

/-- Every length can be written. -/
theorem exists_css_of_finite (l : Length) : ∃ t, l.css = .ok t := by
  obtain ⟨x, hx, -⟩ := Number.exists_toDouble l.finite
  unfold css Number.plain
  split
  · next k hk =>
    rw [hk] at hx
    rw [hx]
    exact ⟨_, rfl⟩
  · exact ⟨_, rfl⟩

/-- There is a size unless a quotient overflows. -/
theorem exists_toPixels_iff (l : Length) (c : Context) :
    (∃ n, l.toPixels c = .ok n) ↔ ¬l.QuotientOverflows c := by
  rcases l.toPixels_cases c with ⟨hsize, hquotient⟩ | ⟨negative, hsize, hproduct⟩ | hfinite
  · simp [hsize, hquotient]
  · exact iff_of_true ⟨_, hsize⟩ fun h => h.not_product hproduct
  · obtain ⟨⟨n, -, hsize, -⟩, hquotient, -⟩ := hfinite
    exact iff_of_true ⟨n, hsize⟩ hquotient

end Length

/-! ## Percentages -/

namespace Percentage

/-- The value is a number within the doubles, or an infinity. -/
def Accepts (v : Value) : Prop := ¬v.TooLarge ∧ ∃ n, v = .number n ∧ n ≠ .double .nan

theorem settles_ofValue (v : Value) :
    Settles (ofValue v) v (Accepts v) (.percentageNotNumber v)
      fun p => ∃ n, v = .number n ∧ p.value = Number.max 0 n where
  fault := by
    rintro ⟨k, rfl, hlarge⟩
    simp only [ofValue, Number.toDouble_of_overflow hlarge]
  refused hsmall hnot := by
    cases v with
    | number n =>
      have hnan : n = .double .nan := by
        by_contra hne
        exact hnot ⟨hsmall, n, rfl, hne⟩
      subst hnan
      rfl
    | _ => rfl
  made := by
    rintro ⟨hsmall, n, rfl, hnan⟩
    obtain ⟨x, hx⟩ := Number.exists_toDouble_of_not_large hsmall
    refine ⟨clamp n, ?_, n, rfl, rfl⟩
    simp only [ofValue, hx, Number.isNaN_of_toDouble hx hnan]
    rfl

end Percentage

/-! ## Main result -/

/-- **Construction.** A context, a length and a percentage of any values: an integer beyond the doubles
is a fault, and every other value is refused by name or accepted. What is made has the value that was
given, a negative percentage apart. Of a context the first value that is not accepted counts. A length
can be written, and has a size in the default context unless a quotient overflows there. -/
theorem constructs (values : Context.Field → Value) (v : Value) (u : LengthUnit) :
    (((∀ f, (values f).IsDimension) → ∃ c, Context.ofFields values = .ok c
        ∧ ∀ f, values f = .number (c.get f).value ∧ ∃ q, (c.get f).value.IsAt q ∧ 0 < q)
      ∧ ∀ f, (∀ g ∈ f.earlier, (values g).IsDimension) →
        ((values f).TooLarge → Context.ofFields values = .error (.fault .integerTooLarge))
        ∧ (¬(values f).TooLarge → ¬(values f).IsDimension →
          Context.ofFields values = .error (Dimension.refusal f.name (values f))))
    ∧ ((∀ t, LengthUnit.lookup? t = some u → Length.ofParts v (.text t) = Length.ofValue v u)
      ∧ Settles (Length.ofValue v u) v v.IsWithin (.lengthNotFinite v) fun l =>
        v = .number l.value ∧ l.unit = u ∧ (∃ t, l.css = .ok t)
          ∧ ((∃ n, l.toPixels .default = .ok n) ↔ ¬l.QuotientOverflows .default))
    ∧ Settles (Percentage.ofValue v) v (Percentage.Accepts v) (.percentageNotNumber v) fun p =>
      (∃ n, v = .number n ∧ p.value = Number.max 0 n)
        ∧ Number.le 0 p.value = true ∧ p.value ≠ .double .nan := by
  refine ⟨⟨fun h => ?_, fun f hearlier => ?_⟩, ⟨fun t ht => ?_, ?_⟩, ?_⟩
  · obtain ⟨c, hc, hvalues⟩ := Context.ofFields_of_dimensions h
    exact ⟨c, hc, fun f =>
      ⟨hvalues f, Number.exists_isAt_of_isDimension (c.get f).isDimension⟩⟩
  · have hf := Dimension.settles_ofValue f.name (values f)
    exact ⟨fun hlarge => Context.ofFields_error hearlier (hf.fault hlarge),
      fun hsmall hnot => Context.ofFields_error hearlier (hf.refused hsmall hnot)⟩
  · exact Length.ofParts_of_lookup? ht v
  · exact (Length.settles_ofValue v u).mono fun l hl =>
      ⟨hl.1, hl.2, l.exists_css_of_finite, l.exists_toPixels_iff .default⟩
  · refine (Percentage.settles_ofValue v).mono fun p hp => ⟨hp, p.nonneg, fun hnan => ?_⟩
    have hnonneg := p.nonneg
    rw [hnan] at hnonneg
    cases hnonneg

/-- A negative width is refused before anything is said of a font that is too large. A length of
`10 ^ 308` in hundredths of the viewport is made and can be written, but it has no size there. -/
theorem constructs_extremes :
    (Context.ofFields fun
      | .viewportWidth => .number (.int (-1))
      | .viewportHeight => .null
      | .fontSize => .number (.int (10 ^ 400)))
        = .error (.dimensionNotPositive Context.viewportWidthName (.number (.int (-1))))
    ∧ (∃ l, Length.ofValue (.number (.int (10 ^ 308))) .vw = .ok l ∧ (∃ t, l.css = .ok t)
      ∧ ¬∃ n, l.toPixels .default = .ok n)
    ∧ ∃ p, Percentage.ofValue (.number (.int (-5))) = .ok p ∧ p.value = 0 := by
  have hsmall {k : Int} (h : ¬overflow ≤ |(k : Rat)|) : ¬(Value.number (.int k)).TooLarge := by
    rintro ⟨k', heq, hlarge⟩
    cases heq
    exact h hlarge
  refine ⟨?_, ?_, ?_⟩
  · refine ((constructs _ .null .px).1.2 .viewportWidth nofun).2 (hsmall (by decide +kernel)) ?_
    rintro ⟨n, heq, hpos⟩
    cases heq
    exact absurd hpos (by decide +kernel)
  · obtain ⟨l, hl, hvalue, hunit, hcss, hsize⟩ :=
      (constructs (fun _ => .null) (.number (.int (10 ^ 308))) .vw).2.1.2.made
        ⟨_, _, rfl, Number.isAt_int _, by decide +kernel⟩
    have hvalue : l.value = .int (10 ^ 308) := (Value.number.inj hvalue).symm
    refine ⟨l, hl, hcss, fun h => hsize.mp h ?_⟩
    exact ⟨_, 1920, 100, hvalue, by rw [hunit]; rfl, by rw [hunit]; rfl, by decide +kernel⟩
  · obtain ⟨p, hp, ⟨n, heq, hvalue⟩, -⟩ :=
      (constructs (fun _ => .null) (.number (.int (-5))) .px).2.2.made
        ⟨hsmall (by decide +kernel), _, rfl, by simp⟩
    cases heq
    exact ⟨p, hp, by rw [hvalue]; decide +kernel⟩

/-- An integer beyond the doubles is refused by none of them. -/
theorem not_constructs :
    Context.ofEntries [(Context.fontSizeName, .number (.int (10 ^ 400)))]
        = .error (.fault .integerTooLarge)
      ∧ Length.ofParts (.number (.int (10 ^ 400))) (.text LengthUnit.px.name)
        = .error (.fault .integerTooLarge)
      ∧ Percentage.ofValue (.number (.int (10 ^ 400))) = .error (.fault .integerTooLarge) := by
  have hlarge : (Value.number (.int (10 ^ 400))).TooLarge := ⟨_, rfl, by decide +kernel⟩
  refine ⟨?_, ?_, (Percentage.settles_ofValue _).fault hlarge⟩
  · let values : Context.Field → Value
      | .viewportWidth => .number 1920
      | .viewportHeight => .number 1080
      | .fontSize => .number (.int (10 ^ 400))
    have hearlier : ∀ g ∈ Context.Field.fontSize.earlier, (values g).IsDimension := by
      simp only [Context.Field.earlier, List.mem_cons, List.not_mem_nil, or_false]
      rintro g (rfl | rfl)
      · exact ⟨1920, rfl, by decide +kernel⟩
      · exact ⟨1080, rfl, by decide +kernel⟩
    exact Context.ofFields_error hearlier ((Dimension.settles_ofValue _ _).fault hlarge)
  · rw [Length.ofParts_of_lookup? (by decide +kernel : _ = some LengthUnit.px)]
    exact (Length.settles_ofValue _ _).fault hlarge

end CssValues
