import CssValues.Proofs.Calc.Grammar
import CssValues.Proofs.Number.Order
import CssValues.Proofs.Number.Unsigned
import CssValues.Proofs.Quantity.Reading

/-!
# Calculations written and read back

The number of a term is written as a numeral without sign or exponent, with the name of the unit
behind it, so a written calculation has a body of the grammar (`CalcExpression.isWritten_parts`). Main
result: `written_reads_back`, for calculations and for percentages.
-/

namespace CssValues

namespace CalcExpression

/-! ## Reading what is written -/

/-- The body of a calculation as written. -/
def body (m : Numeral) (u : TermUnit) (o : CalcOperator) (n : Numeral) (v : TermUnit) : Text :=
  m.text ++ u.name ++ ' ' :: o.symbol ++ ' ' :: (n.text ++ v.name)

/-- The parts of a body as written, single spaces around the operator. -/
def parts (m : Numeral) (u : TermUnit) (o : CalcOperator) (n : Numeral) (v : TermUnit) : CalcBody :=
  ⟨m.withUnit u, .space, o, .space, n.withUnit v⟩

variable (m : Numeral) (u : TermUnit) (o : CalcOperator) (n : Numeral) (v : TermUnit)

theorem text_parts : (parts m u o n v).text = body m u o n v := by
  simp [parts, body, CalcBody.text, CalcBody.operatorText, Text.Blanks.space,
    Numeral.text_withUnit]

/-- The white space of a written body is normal already. -/
theorem join_words_body : Text.join [' '] (body m u o n v).words = body m u o n v := by
  have hjoin : body m u o n v
      = Text.join [' '] [(m.withUnit u).text, o.symbol, (n.withUnit v).text] := by
    simp [body, Text.join, Numeral.text_withUnit]
  have hquantity : ∀ q : Quantity, q.text ≠ [] ∧ ∀ c ∈ q.text, Text.isBlank c = false := by
    intro q
    obtain ⟨c, t, htext, -⟩ := q.exists_text_cons
    exact ⟨by simp [htext], fun d hd => q.isBlank_of_mem_text hd⟩
  have hsymbol : o.symbol ≠ [] ∧ ∀ c ∈ o.symbol, Text.isBlank c = false := by
    cases o <;> decide
  rw [hjoin, Text.words_join]
  intro w hw
  simp only [List.mem_cons, List.not_mem_nil, or_false] at hw
  rcases hw with rfl | rfl | rfl
  · exact hquantity _
  · exact hsymbol
  · exact hquantity _

theorem isWritten_parts :
    (parts m u o n v).IsWritten (CalcSource.opening ++ body m u o n v ++ [')']) := by
  refine ⟨body m u o n v, ?_, ?_⟩
  · refine Text.trimWhere_of_ends ?_ ?_
    · rintro c ⟨⟩
      decide
    · rw [List.getLast?_concat]
      rintro c ⟨⟩
      decide
  · rw [join_words_body, text_parts]

/-- **Reading.** A written calculation reads as the two numbers with their units. -/
theorem read_body {x y : Binary64} (hx : x.isFinite = true) (hy : y.isFinite = true)
    (hleft : (m.decimal false).toDouble = x) (hright : (n.decimal false).toDouble = y) :
    read (CalcSource.opening ++ body m u o n v ++ [')']) = .ok ⟨⟨.double x, u⟩, o, ⟨.double y, v⟩⟩ := by
  refine read_eq_ok_iff.mpr ⟨parts m u o n v, x, y, isWritten_parts m u o n v, ?_, ?_, rfl⟩
  · show Binary64.readFinite? (m.withUnit u).literal.text = some x
    rw [m.literal_text_withUnit]
    exact m.readFinite?_text hleft hx
  · show Binary64.readFinite? (n.withUnit v).literal.text = some y
    rw [n.literal_text_withUnit]
    exact n.readFinite?_text hright hy

end CalcExpression

/-! ## The numbers of a calculation -/

/-- A term whose number is written without a sign. -/
def Term.IsUnsigned (t : Term) : Prop :=
  ∃ x : Binary64, t.value = .double x ∧ x.isFinite = true ∧ x.isNegative = false

/-- The grammar leaves no room for a sign in front of a number. -/
theorem Literal.isUnsigned_of_readFinite? {l : Literal} {x : Binary64}
    (h : Binary64.readFinite? l.text = some x) (u : TermUnit) :
    Term.IsUnsigned ⟨.double x, u⟩ := by
  have hnearest := (l.readFinite?_text_iff .absent).mp h
  exact ⟨x, rfl, hnearest.isFinite, hnearest.isNegative⟩

namespace CalcExpression

/-- The terms of a calculation that was read are not negative, not even a negative zero. -/
theorem isUnsigned_of_read {t : Text} {e : CalcExpression} (h : read t = .ok e) :
    e.left.IsUnsigned ∧ e.right.IsUnsigned := by
  obtain ⟨b, x, y, -, hx, hy, rfl⟩ := read_eq_ok_iff.mp h
  exact ⟨Literal.isUnsigned_of_readFinite? hx _, Literal.isUnsigned_of_readFinite? hy _⟩

/-- What was read is read again from what is written. -/
theorem read_css_of_read {t : Text} {e : CalcExpression} (h : read t = .ok e) :
    ∃ s, e.css = .ok s ∧ read s = .ok e := by
  obtain ⟨⟨x, hleft, hx, hxsign⟩, ⟨y, hright, hy, hysign⟩⟩ := isUnsigned_of_read h
  obtain ⟨⟨left, u⟩, o, ⟨right, v⟩⟩ := e
  subst hleft hright
  obtain ⟨m, hm, hmvalue⟩ := Binary64.exists_numeral_unsigned hx hxsign
  obtain ⟨n, hn, hnvalue⟩ := Binary64.exists_numeral_unsigned hy hysign
  refine ⟨CalcSource.opening ++ body m u o n v ++ [')'], ?_, ?_⟩
  · simp only [css, Term.css, Number.plain, hm, hn, body, bind, Except.bind, pure, Except.pure,
      List.append_assoc, List.cons_append]
  · exact read_body m u o n v hx hy hmvalue hnvalue

theorem equals_self_of_read {t : Text} {e : CalcExpression} (h : read t = .ok e) :
    e.equals e = true := by
  obtain ⟨⟨x, hleft, hx, -⟩, ⟨y, hright, hy, -⟩⟩ := isUnsigned_of_read h
  simp [equals, Term.equals, hleft, hright, Number.equals_self hx, Number.equals_self hy]

end CalcExpression

/-! ## Percentages -/

namespace Percentage

/-- A numeral with a percent sign reads as the percentage of the nearest double. -/
theorem read_numeral (n : Numeral) {x : Binary64} (hvalue : (n.decimal false).toDouble = x)
    (hx : x.isFinite = true) : read (n.text ++ ['%']) = .ok (clamp (.double x)) := by
  refine read_eq_ok_iff.mpr ⟨.absent, n.withUnit .percent, x, ?_, rfl, ?_, rfl⟩
  · rw [show n.text ++ ['%'] = (n.withUnit .percent).text from (n.text_withUnit .percent).symm]
    exact Quantity.isWritten_signed_text .absent _
  · show Binary64.readFinite? (n.withUnit .percent).literal.text = some x
    rw [n.literal_text_withUnit]
    exact n.readFinite?_text hvalue hx

/-- A percentage is read again from what is written; one that is not above zero is written so. -/
theorem read_css_clamp {x : Binary64} (hx : x.isFinite = true) :
    ∃ s, (clamp (.double x)).css = .ok s ∧ read s = .ok (clamp (.double x))
      ∧ (Number.lt 0 (.double x) = false → s = ['0', '%']) := by
  cases hpos : Number.lt 0 (.double x) with
  | false =>
    have hvalue : ∀ {y : Binary64}, Number.lt 0 (.double y) = false →
        clamp (.double y) = ⟨0, by decide +kernel⟩ := fun h => by
      simp only [clamp, Number.max_of_not_lt h]
    rw [hvalue hpos, ← hvalue (y := .zero false) (by decide +kernel)]
    exact ⟨['0', '%'], by decide +kernel, read_numeral (.ofNat 0) rfl rfl, fun _ => rfl⟩
  | true =>
    obtain ⟨n, hn, hvalue⟩ := Binary64.exists_numeral_unsigned hx (Number.isNegative_of_pos hpos)
    refine ⟨n.text ++ ['%'], ?_, read_numeral n hvalue hx, fun h => absurd h (by decide)⟩
    simp only [css, clamp, Number.max_of_lt hpos, Number.plain, hn]
    rfl

theorem isAt_value_clamp {n : Number} {q : Rat} (h : n.IsAt q) :
    (clamp n).value.IsAt (Max.max 0 q) := Number.isAt_max Number.isAt_zero h

end Percentage

/-! ## Both -/

/-- **Round trip.** A calculation that was read is written as a text that reads as the same two terms
with the same operator, and so has the same size in every context. The percentage of every finite
double is written as a text that reads as the same percentage; that of a negative one is zero. -/
theorem written_reads_back :
    (∀ (t : Text) (e : CalcExpression), CalcExpression.read t = .ok e →
      ∃ s f, e.css = .ok s ∧ CalcExpression.read s = .ok f ∧ f.equals e = true
        ∧ ∀ c, ∃ n, f.evaluate c = .ok n ∧ e.evaluate c = .ok n)
    ∧ ∀ x : Binary64, x.isFinite = true →
      ∃ p s q, Percentage.ofValue (.number (.double x)) = .ok p ∧ p.css = .ok s
        ∧ Percentage.read s = .ok q ∧ q.equals p = true
        ∧ if Number.lt (.double x) 0 then p.value = 0 ∧ s = ['0', '%']
          else p.value.equals (.double x) = true := by
  refine ⟨fun t e hread => ?_, fun x hx => ?_⟩
  · obtain ⟨s, hcss, hback⟩ := CalcExpression.read_css_of_read hread
    refine ⟨s, e, hcss, hback, CalcExpression.equals_self_of_read hread, fun c => ?_⟩
    obtain ⟨n, hn, -⟩ := CalcExpression.exists_evaluate hread c
    exact ⟨n, hn, hn⟩
  · obtain ⟨s, hcss, hback, hzero⟩ := Percentage.read_css_clamp hx
    obtain ⟨q, hq⟩ := Number.exists_isAt hx
    have hvalue := Percentage.isAt_value_clamp hq
    have hof : Percentage.ofValue (.number (.double x)) = .ok (.clamp (.double x)) := by
      cases x with
      | finite negative m e h => rfl
      | infinite negative => cases hx
      | nan => cases hx
    refine ⟨.clamp (.double x), s, .clamp (.double x), hof, hcss, hback,
      (Number.equals_iff hvalue hvalue).mpr rfl, ?_⟩
    split
    · next hneg =>
      have hnot : Number.lt 0 (.double x) = false := by
        rw [← Bool.not_eq_true, Number.lt_iff Number.isAt_zero hq]
        exact ((Number.lt_iff hq Number.isAt_zero).mp hneg).not_gt
      exact ⟨Number.max_of_not_lt hnot, hzero hnot⟩
    · next hneg =>
      rw [Number.lt_iff hq Number.isAt_zero, not_lt] at hneg
      exact (Number.equals_iff hvalue hq).mpr (max_eq_right hneg)

/-- An exponent in front of a unit that starts like one, and the greatest double below zero. -/
theorem written_reads_back_extremes :
    (∃ e s f, CalcExpression.read "calc(1E+2Ex - .5%)".toList = .ok e ∧ e.css = .ok s
      ∧ CalcExpression.read s = .ok f ∧ f.equals e = true)
    ∧ ∃ p q, Percentage.ofValue (.number (.double (.finite true 1 (-1074) (by decide)))) = .ok p
      ∧ p.css = .ok ['0', '%'] ∧ Percentage.read ['0', '%'] = .ok q ∧ q.equals p = true := by
  refine ⟨?_, ?_⟩
  · obtain ⟨e, he⟩ := exists_of_isOk (r := CalcExpression.read "calc(1E+2Ex - .5%)".toList)
      (by decide +kernel)
    obtain ⟨s, f, hcss, hf, hequal, -⟩ := written_reads_back.1 _ e he
    exact ⟨e, s, f, he, hcss, hf, hequal⟩
  · obtain ⟨p, s, q, hp, hs, hq, hequal, hsign⟩ :=
      written_reads_back.2 (.finite true 1 (-1074) (by decide)) rfl
    rw [if_pos (by decide +kernel)] at hsign
    obtain ⟨-, rfl⟩ := hsign
    exact ⟨p, q, hp, hs, hq, hequal⟩

end CssValues
