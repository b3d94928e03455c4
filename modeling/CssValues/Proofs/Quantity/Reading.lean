import CssValues.Percentage
import CssValues.Proofs.Length
import CssValues.Proofs.Resolver
import CssValues.Proofs.Spelling

/-!
# The grammars of lengths and percentages

Both are quantities with a sign or without one, and differ in their units. As a text is a quantity in
one way only, no text is both. Main result: `read_quantities`.
-/

namespace CssValues

/-- A text is the quantity `q` behind the sign `s`, but for blanks around them. -/
def Quantity.IsWritten (q : Quantity) (s : Sign) (t : Text) : Prop := t.trim = s.text ++ q.text

namespace Quantity

variable {q q' : Quantity} {s s' : Sign} {t : Text}

theorem IsWritten.unique (h : q.IsWritten s t) (h' : q'.IsWritten s' t) : s = s' ∧ q = q' := by
  unfold IsWritten at h h'
  exact signed_text_inj (h.symm.trans h')

theorem isWritten_signed_text (s : Sign) (q : Quantity) : q.IsWritten s (s.text ++ q.text) :=
  q.trim_signed_text s

/-- **Completeness.** The number and the unit of a written quantity are told apart. -/
theorem IsWritten.splitNumber? (h : q.IsWritten s t) :
    splitNumber? t.trim = some (s.text ++ q.literal.text, q.unitName) := by
  rw [h]
  exact q.splitNumber?_signed_text s

/-- **Soundness.** What is told apart from the name of a unit makes a quantity with it. -/
theorem exists_isWritten {number name : Text} {u : TermUnit}
    (hsplit : CssValues.splitNumber? t.trim = some (number, name)) (hname : u.IsWritten name) :
    ∃ (s : Sign) (q : Quantity), q.IsWritten s t ∧ q.unit = u
      ∧ s.text ++ q.literal.text = number := by
  obtain ⟨s, l, rfl, ht⟩ := Literal.exists_of_splitNumber? hsplit
  refine ⟨s, ⟨l, name, u, hname⟩, ?_, rfl, rfl⟩
  rw [IsWritten, ht, text, List.append_assoc]

end Quantity

/-! ## Percentages -/

theorem Percentage.read_eq_ok_iff {t : Text} {p : Percentage} :
    read t = .ok p ↔ ∃ (s : Sign) (q : Quantity) (x : Binary64), q.IsWritten s t
      ∧ q.unit = .percent ∧ Binary64.readFinite? (s.text ++ q.literal.text) = some x
      ∧ p = clamp (.double x) := by
  unfold read
  constructor
  · intro h
    split at h
    · next number hsplit =>
      split at h
      · cases h
      · next x hx =>
        cases h
        obtain ⟨s, q, hq, hunit, rfl⟩ :=
          Quantity.exists_isWritten hsplit (TermUnit.isWritten_name .percent)
        exact ⟨s, q, x, hq, hunit, hx, rfl⟩
    · cases h
  · rintro ⟨s, q, x, hq, hunit, hx, rfl⟩
    have hname : q.unitName = ['%'] := by
      have hwritten := q.isWritten
      rw [hunit] at hwritten
      rcases hwritten.cases with ⟨-, hnone⟩ | ⟨hname, -⟩ | ⟨_, hlength, -⟩
      · cases hnone
      · exact hname
      · cases hlength
    rw [hq.splitNumber?, hname]
    simp only [hx]

/-! ## Lengths -/

namespace Length

/-- A length is small enough if its size in the default context is finite. -/
theorem checked_eq_self_iff {x : Binary64} {u : LengthUnit} (hx : x.isFinite = true) :
    checked ⟨.double x, u, hx⟩ = .ok ⟨.double x, u, hx⟩ ↔ ∃ y : Binary64,
      u.toPixels (.double x) .default = .ok (.double y) ∧ y.isFinite = true := by
  obtain ⟨scale, -, -, hscale⟩ := u.exists_scale .default
  rw [checked_eq hx hscale, hscale]
  constructor
  · intro h
    split at h
    · next hfinite => exact ⟨_, rfl, hfinite⟩
    · cases h
  · rintro ⟨y, hy, hfinite⟩
    cases hy
    rw [if_pos hfinite]

theorem read_eq_ok_iff {t : Text} {l : Length} :
    read t = .ok l ↔ ∃ (s : Sign) (q : Quantity) (x y : Binary64), q.IsWritten s t
      ∧ q.unit = .length l.unit ∧ Binary64.readFinite? (s.text ++ q.literal.text) = some x
      ∧ l.value = .double x ∧ l.toPixels .default = .ok (.double y) ∧ y.isFinite = true := by
  constructor
  · intro h
    obtain ⟨number, name, x, hsplit, hletters, hunit, hx, hvalue⟩ := exists_parts h
    obtain ⟨-, -, y, -, hy, hfinite⟩ := exists_double_of_read h
    have hname : (TermUnit.length l.unit).IsWritten name := by
      rcases hunit with ⟨hnone, hpx⟩ | hlookup
      · rw [hpx]
        exact .inl ⟨hnone, rfl⟩
      · exact .inr ((LengthUnit.lookup?_eq_some_iff hletters).mp hlookup)
    obtain ⟨s, q, hq, hqunit, rfl⟩ := Quantity.exists_isWritten hsplit hname
    exact ⟨s, q, x, y, hq, hqunit, hx, hvalue, hy, hfinite⟩
  · rintro ⟨s, q, x, y, hq, hunit, hx, hvalue, hy, hfinite⟩
    obtain ⟨value, u, hvalueFinite⟩ := l
    obtain rfl : value = .double x := hvalue
    have hname : (TermUnit.length u).IsWritten q.unitName := by
      rw [← show q.unit = .length u from hunit]
      exact q.isWritten
    rw [read_of_split hq.splitNumber? hname hx]
    exact (checked_eq_self_iff _).mpr ⟨y, hy, hfinite⟩

end Length

/-! ## Both -/

/-- **Grammars.** A text is read as a length just if it is a number, with a sign or without, and the
name of a unit of length or nothing, the double nearest to the number exists, and its size in the
default context is finite. It is read as a percentage just if it is such a number and a percent sign.
There is one way only to tell the number from the unit, so no text is both. -/
theorem read_quantities (t : Text) :
    (∀ l, Length.read t = .ok l ↔ ∃ (s : Sign) (q : Quantity) (x y : Binary64), q.IsWritten s t
      ∧ q.unit = .length l.unit ∧ Binary64.IsNearest s.isMinus q.literal.magnitude x
      ∧ l.value = .double x ∧ l.toPixels .default = .ok (.double y) ∧ y.isFinite = true)
    ∧ (∀ p, Percentage.read t = .ok p ↔ ∃ (s : Sign) (q : Quantity) (x : Binary64),
      q.IsWritten s t ∧ q.unit = .percent
      ∧ Binary64.IsNearest s.isMinus q.literal.magnitude x ∧ p.value = Number.max 0 (.double x))
    ∧ (∀ (s s' : Sign) (q q' : Quantity), q.IsWritten s t → q'.IsWritten s' t → s = s' ∧ q = q')
    ∧ ¬((∃ l, Length.read t = .ok l) ∧ ∃ p, Percentage.read t = .ok p) := by
  have hclamp (p : Percentage) (n : Number) : p = .clamp n ↔ p.value = Number.max 0 n := by
    obtain ⟨value, hvalue⟩ := p
    rw [Percentage.clamp, Percentage.mk.injEq]
  refine ⟨fun l => ?_, fun p => ?_, fun s s' q q' h h' => h.unique h', ?_⟩
  · simp only [Length.read_eq_ok_iff, Literal.readFinite?_text_iff]
  · simp only [Percentage.read_eq_ok_iff, Literal.readFinite?_text_iff, hclamp]
  · rintro ⟨⟨l, hl⟩, p, hp⟩
    obtain ⟨s, q, -, -, hq, hlength, -⟩ := Length.read_eq_ok_iff.mp hl
    obtain ⟨s', q', -, hq', hpercent, -⟩ := Percentage.read_eq_ok_iff.mp hp
    obtain ⟨-, rfl⟩ := hq.unique hq'
    rw [hlength] at hpercent
    cases hpercent

/-- An exponent in front of a unit that starts like one, and a percentage below zero. -/
theorem read_quantities_exponents :
    (∃ (l : Length) (s : Sign) (q : Quantity), Length.read " -1.e-3eM ".toList = .ok l
      ∧ q.IsWritten s " -1.e-3eM ".toList ∧ q.unit = .length l.unit
      ∧ ∀ (s' : Sign) (q' : Quantity), q'.IsWritten s' " -1.e-3eM ".toList → s' = s ∧ q' = q)
    ∧ ∃ (p : Percentage) (x : Binary64), Percentage.read "-.5E1%".toList = .ok p
      ∧ p.value = Number.max 0 (.double x) ∧ ¬∃ l, Length.read "-.5E1%".toList = .ok l := by
  constructor
  · obtain ⟨l, hl⟩ := exists_of_isOk (r := Length.read " -1.e-3eM ".toList) (by decide +kernel)
    obtain ⟨s, q, -, -, hq, hunit, -⟩ := ((read_quantities _).1 l).mp hl
    exact ⟨l, s, q, hl, hq, hunit, fun s' q' hq' => (read_quantities _).2.2.1 s' s q' q hq' hq⟩
  · obtain ⟨p, hp⟩ := exists_of_isOk (r := Percentage.read "-.5E1%".toList) (by decide +kernel)
    obtain ⟨-, -, x, -, -, -, hvalue⟩ := ((read_quantities _).2.1 p).mp hp
    exact ⟨p, x, hp, hvalue, fun hl => (read_quantities _).2.2.2 ⟨hl, p, hp⟩⟩

end CssValues
