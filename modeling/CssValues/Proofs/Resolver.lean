import CssValues.Proofs.Length
import CssValues.Resolver

/-!
# Resolving values never fails

Under every context every value of any kind resolves to nothing or to something finite
(`Resolver.resolves`). What is read holds doubles only; in pixels these stay doubles, so no integer
can be beyond the doubles, and the results that are not finite are left out.
-/

namespace CssValues

/-! ## Numbers that are easy to check -/

namespace Number

/-- Zero or a double: the numbers that reading and measuring style values come to. -/
inductive IsMeasured : Number → Prop where
  | zero : IsMeasured 0
  | double (x : Binary64) : IsMeasured (.double x)

/-- Whether a measured number is finite can always be told. -/
theorem IsMeasured.exists_isFinite {n : Number} (h : n.IsMeasured) :
    ∃ b, n.isFinite = .ok b := by
  cases h with
  | zero => exact ⟨true, rfl⟩
  | double x => exact ⟨x.isFinite, rfl⟩

theorem IsMeasured.exists_toDouble {n : Number} (h : n.IsMeasured) :
    ∃ d, n.toDouble = .ok d := by
  cases h with
  | zero => exact ⟨Binary64.zero false, rfl⟩
  | double x => exact ⟨x, rfl⟩

/-- Measured numbers combine without fault: zeros stay integers, all else is taken as doubles. -/
theorem exists_combine {onInt : Int → Int → Int} {onDouble : Binary64 → Binary64 → Binary64}
    (hzero : onInt 0 0 = 0) {a b : Number} (ha : a.IsMeasured) (hb : b.IsMeasured) :
    ∃ n, combine onInt onDouble a b = .ok n ∧ n.IsMeasured := by
  obtain ⟨x, hx⟩ := ha.exists_toDouble
  obtain ⟨y, hy⟩ := hb.exists_toDouble
  by_cases hinteger : a.IsInt ∧ b.IsInt
  · obtain ⟨⟨m, rfl⟩, ⟨n, rfl⟩⟩ := hinteger
    cases ha
    cases hb
    exact ⟨0, congrArg (fun n => Except.ok (int n)) hzero, .zero⟩
  · exact ⟨_, combine_of_not_int hinteger hx hy, .double _⟩

theorem isFinite_max_zero {n : Number} (h : n.isFinite = .ok true) :
    (Number.max 0 n).isFinite = .ok true := by
  rcases max_cases 0 n with hmax | hmax
  · rw [hmax]
    rfl
  · rw [hmax, h]

end Number

/-! ## Terms and calculations -/

/-- A term whose number is a finite double. -/
def Term.IsRead (t : Term) : Prop := ∃ x : Binary64, t.value = .double x ∧ x.isFinite = true

theorem Term.exists_toPixels {t : Term} (h : t.IsRead) (c : Context) :
    ∃ n, t.toPixels c = .ok n ∧ n.IsMeasured := by
  obtain ⟨x, hx, -⟩ := h
  obtain ⟨value, unit⟩ := t
  subst hx
  cases unit with
  | percent => exact ⟨0, rfl, .zero⟩
  | length u =>
    obtain ⟨s, -, -, hs⟩ := u.exists_scale c
    exact ⟨.double (s.apply x), hs x, .double _⟩

theorem CalcOperator.exists_apply {a b : Number} (o : CalcOperator) (ha : a.IsMeasured)
    (hb : b.IsMeasured) : ∃ n, o.apply a b = .ok n ∧ n.IsMeasured := by
  cases o with
  | plus => exact Number.exists_combine rfl ha hb
  | minus => exact Number.exists_combine rfl ha hb

namespace CalcExpression

/-- A calculation that was read has finite doubles in both terms. -/
theorem isRead_of_read {t : Text} {e : CalcExpression} (h : read t = .ok e) :
    e.left.IsRead ∧ e.right.IsRead := by
  unfold read at h
  split at h
  · cases h
  · next s _ =>
    unfold ofSource at h
    split at h
    · cases h
    · split at h
      · next x y hx hy =>
        split at h
        · cases h
          exact ⟨⟨x, rfl, Binary64.isFinite_of_readFinite? hx⟩,
            ⟨y, rfl, Binary64.isFinite_of_readFinite? hy⟩⟩
        · cases h
      · cases h

/-- A calculation that was read has a size in every context. -/
theorem exists_evaluate {t : Text} {e : CalcExpression} (h : read t = .ok e) (c : Context) :
    ∃ n, e.evaluate c = .ok n ∧ n.IsMeasured := by
  obtain ⟨hleft, hright⟩ := isRead_of_read h
  obtain ⟨a, ha, hameasured⟩ := Term.exists_toPixels hleft c
  obtain ⟨b, hb, hbmeasured⟩ := Term.exists_toPixels hright c
  obtain ⟨n, hn, hmeasured⟩ := e.operator.exists_apply hameasured hbmeasured
  refine ⟨n, ?_, hmeasured⟩
  simp only [evaluate, ha, hb, bind, Except.bind]
  exact hn

end CalcExpression

/-! ## Resolving -/

/-- Whether there is a result can be computed, also where results cannot be compared. -/
theorem exists_of_isOk {ε α : Type} {r : Except ε α} (h : r.isOk = true) : ∃ a, r = .ok a := by
  cases r with
  | ok a => exact ⟨a, rfl⟩
  | error _ => cases h

namespace Resolver

/-- A result without a fault, whose value, if there is one, satisfies `p`. -/
def Answers {α : Type} (p : α → Prop) : Except Refusal α → Prop
  | .ok a => p a
  | .error why => ∀ f, why ≠ .fault f

/-- What a size may be: finite pixels, or a percentage that is finite and at least zero. -/
def IsFiniteSize : Size → Prop
  | .pixels n => n.isFinite = .ok true
  | .percentage p => p.value.isFinite = .ok true ∧ Number.le 0 p.value = true

theorem Answers.map {α β : Type} {p : α → Prop} {q : β → Prop} {f : α → β}
    (hpq : ∀ a, p a → q (f a)) {r : Except Refusal α} (h : Answers p r) :
    Answers q (r.map f) := by
  cases r with
  | ok a => exact hpq a h
  | error why => exact h

/-- What has no fault and no value gives nothing. -/
theorem Answers.attempt_eq_none {α : Type} {p : α → Prop} {r : Except Refusal α}
    (h : Answers p r) (hr : ∀ a, r ≠ .ok a) : (attempt r).result = .ok none := by
  cases r with
  | ok a => exact absurd rfl (hr a)
  | error why =>
    cases why with
    | fault f => exact absurd rfl (h f)
    | _ => rfl

/-- What has no fault gives an answer: a value, or nothing. -/
theorem Answers.exists_attempt {α : Type} {p : α → Prop} {r : Except Refusal α}
    (h : Answers p r) : ∃ o, (attempt r).result = .ok o ∧ ∀ a, o = some a → p a := by
  by_cases hok : ∃ a, r = .ok a
  · obtain ⟨a, rfl⟩ := hok
    exact ⟨some a, rfl, by rintro _ ⟨⟩; exact h⟩
  · exact ⟨none, h.attempt_eq_none fun a ha => hok ⟨a, ha⟩, by rintro _ ⟨⟩⟩

theorem answers_finite (t : Text) {n : Number} (h : n.IsMeasured) :
    Answers (fun n => n.isFinite = .ok true) (finite t (.ok n)) := by
  obtain ⟨b, hb⟩ := h.exists_isFinite
  unfold finite
  simp only [hb]
  cases b with
  | true => exact hb
  | false => intro f hf; cases hf

theorem answers_calculation (c : Context) (t : Text) :
    Answers (fun n => n.isFinite = .ok true) (calculation c t) := by
  unfold calculation
  split
  · intro f hf; cases hf
  · next e he =>
    obtain ⟨n, hn, hmeasured⟩ := CalcExpression.exists_evaluate he c
    rw [hn]
    exact answers_finite t hmeasured

/-- A length that was read resolves in every context, if it is finite there. -/
theorem answers_length (c : Context) (t : Text) {s : Text} {l : Length}
    (h : Length.read s = .ok l) :
    Answers (fun n => n.isFinite = .ok true) (finite t (l.toPixels c)) := by
  obtain ⟨x, hx, -, hl, -, -⟩ := Length.exists_double_of_read h
  obtain ⟨s, -, -, hs⟩ := l.unit.exists_scale c
  rw [hl, Length.toPixels, hs]
  exact answers_finite t (.double _)

theorem answers_pixels (c : Context) (t : Text) :
    Answers (fun n => n.isFinite = .ok true) (pixels c t) := by
  unfold pixels
  dsimp only
  split
  · exact answers_calculation c _
  · split
    · next f hf => exact absurd hf (Length.read_ne_fault _ f)
    · intro f hf; cases hf
    · next l hl => exact answers_length c t hl

theorem answers_calcSize (c : Context) (t body : Text) :
    Answers IsFiniteSize (calcSize c t body) := by
  unfold calcSize
  split
  · intro f hf; cases hf
  · next e he =>
    split
    · obtain ⟨x, hx, hfinite⟩ := (CalcExpression.isRead_of_read he).1
      rw [hx]
      exact ⟨Number.isFinite_max_zero (congrArg Except.ok hfinite), (Percentage.clamp _).nonneg⟩
    · obtain ⟨n, hn, hmeasured⟩ := CalcExpression.exists_evaluate he c
      rw [hn]
      exact (answers_finite t hmeasured).map (f := .pixels) (q := IsFiniteSize) fun _ h => h

/-- A percentage that was read is finite. -/
theorem isFinite_of_read_percentage {t : Text} {p : Percentage} (h : Percentage.read t = .ok p) :
    p.value.isFinite = .ok true := by
  unfold Percentage.read at h
  split at h
  · split at h
    · cases h
    · next x hx =>
      cases h
      exact Number.isFinite_max_zero
        (congrArg Except.ok (Binary64.isFinite_of_readFinite? hx))
  · cases h

theorem answers_size (c : Context) (t : Text) : Answers IsFiniteSize (size c t) := by
  unfold size
  dsimp only
  split
  · intro f hf; cases hf
  split
  · exact answers_calcSize c t _
  split
  · split
    · intro f hf; cases hf
    · next p hp => exact ⟨isFinite_of_read_percentage hp, p.nonneg⟩
  split
  · intro f hf; cases hf
  split
  · next f hf => exact absurd hf (Length.read_ne_fault _ f)
  · intro f hf; cases hf
  · next l hl =>
    exact (answers_length c t hl).map (f := .pixels) (q := IsFiniteSize) fun _ h => h

theorem Answers.onText {α : Type} {p : α → Prop} {resolve : Text → Except Refusal α}
    (h : ∀ t, Answers p (resolve t)) (v : Value) : Answers p (onText resolve v) := by
  cases v with
  | text t => exact h t
  | _ => intro f hf; cases hf

theorem result_attempt_map {α β : Type} (f : α → β) (r : Except Refusal α) :
    (attempt (r.map f)).result = (attempt r).result.map (Option.map f) := by
  cases r with
  | ok a => rfl
  | error why => cases why <;> rfl

theorem onText_spacing (c : Context) (v : Value) :
    onText (spacing c) v = (onText (pixels c) v).map (Number.max 0) := by
  cases v <;> rfl

/-- A spacing is the pixels, at least zero, if a value resolves to pixels, and else the fallback. -/
theorem spacingOr_eq (c : Context) (fallback v : Value) {o : Option Number}
    (h : (attempt (onText (pixels c) v)).result = .ok o) :
    (spacingOr c fallback v).result
      = .ok (o.elim fallback fun n => .number (Number.max 0 n)) := by
  unfold spacingOr
  rw [Noted.result_bind, onText_spacing, result_attempt_map, h]
  cases o <;> rfl

/-- **Totality.** Under every context every value resolves to nothing or to something finite: a size
to finite pixels or to a finite percentage that is not negative, pixels and calculations to finite
pixels, and a spacing to the fallback or to finite pixels that are not negative. -/
theorem resolves (c : Context) (v fallback : Value) :
    (∃ o, (attempt (onText (size c) v)).result = .ok o ∧ ∀ s, o = some s → IsFiniteSize s)
    ∧ (∃ o, (attempt (onText (pixels c) v)).result = .ok o
      ∧ ∀ n, o = some n → n.isFinite = .ok true)
    ∧ (∃ o, (attempt (onText (calculation c) v)).result = .ok o
      ∧ ∀ n, o = some n → n.isFinite = .ok true)
    ∧ ∃ w, (spacingOr c fallback v).result = .ok w
      ∧ (w = fallback ∨ ∃ n, w = .number n ∧ n.isFinite = .ok true ∧ Number.le 0 n = true) := by
  refine ⟨(Answers.onText (answers_size c) v).exists_attempt,
    (Answers.onText (answers_pixels c) v).exists_attempt,
    (Answers.onText (answers_calculation c) v).exists_attempt, ?_⟩
  obtain ⟨o, ho, hfinite⟩ := (Answers.onText (answers_pixels c) v).exists_attempt
  refine ⟨_, spacingOr_eq c fallback v ho, ?_⟩
  cases o with
  | none => exact .inl rfl
  | some n =>
    exact .inr ⟨_, rfl, Number.isFinite_max_zero (hfinite n rfl), Number.le_max_zero n⟩

end Resolver

end CssValues
