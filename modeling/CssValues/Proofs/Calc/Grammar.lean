import CssValues.Proofs.Quantity
import CssValues.Proofs.Resolver
import CssValues.Proofs.Spelling

/-!
# The grammar of calculations

A body is two quantities and an operator, with blanks around the operator or not (`CalcBody`). The
exponent of a number may start like a unit and has a sign of its own, so a text may be divided at
more than one place; only one of the ways leaves units that are known (`CalcBody.text_inj`), and that
is the one found first (`CalcBody.split?_text`). Main result: `CalcExpression.read_grammar`.
-/

namespace CssValues

/-! ## The grammar -/

/-- The parts of the body of a calculation, in order. -/
structure CalcBody where
  left : Quantity
  before : Text.Blanks
  operator : CalcOperator
  after : Text.Blanks
  right : Quantity

namespace CalcBody

/-- The operator and the blanks around it. -/
def operatorText (b : CalcBody) : Text := b.before.val ++ b.operator.symbol ++ b.after.val

def text (b : CalcBody) : Text := b.left.text ++ (b.operatorText ++ b.right.text)

end CalcBody

/-- A blank does not start an operator. -/
theorem CalcOperator.head?_symbol (o : CalcOperator) (t : Text) :
    ∀ c ∈ (o.symbol ++ t).head?, Text.isBlank c = false := by
  cases o <;> · rintro c ⟨⟩; decide

/-- Neither a blank nor the sign of an operator continues a quantity. -/
theorem endsQuantity_of_head? {t : Text}
    (h : ∀ c ∈ t.head?, Text.isBlank c = true ∨ c = '+' ∨ c = '-') : EndsQuantity t := by
  intro c hc
  rcases h c hc with hblank | rfl | rfl
  · have hprinting : ¬(0x20 < c.toNat ∧ c.toNat < 0x7F) := by
      rintro ⟨hlow, hhigh⟩
      rw [Text.isBlank_of_printing hlow hhigh] at hblank
      cases hblank
    refine ⟨Text.isDigit_of_isBlank hblank, ?_, ?_, ?_⟩
    · rw [← Bool.not_eq_true]
      intro hletter
      exact hprinting (Text.printing_of_isLetter hletter)
    · rintro rfl
      exact hprinting (by decide)
    · rintro rfl
      exact hprinting (by decide)
  · decide
  · decide

/-! ## Taking a term off a text -/

namespace Quantity

variable (q : Quantity)

theorem head?_text : ∀ c ∈ q.text.head?, Text.isBlank c = false := by
  intro c hc
  exact q.isBlank_of_mem_text (List.mem_of_mem_head? hc)

/-- The number and the unit as the operand of a calculation. -/
def operand : CalcExpression.Operand := ⟨q.literal.text, q.unitName⟩

theorem unit?_operand : q.operand.unit? = some q.unit := by
  refine (TermUnit.unit?_eq_some_iff ?_).mpr q.isWritten
  rcases q.isWritten.cases with ⟨hname, -⟩ | ⟨hname, -⟩ | ⟨-, -, -, hletters, -⟩
  · right
    rw [hname]
    rfl
  · exact .inl hname
  · exact .inr (List.all_eq_true.mpr hletters)

/-- **Completeness.** The first way to take a term off a text is with the exponent, if there is
one. -/
theorem operands_text {rest : Text} (h : EndsQuantity rest) :
    ∃ ways, CalcExpression.operands (q.text ++ rest) = (q.operand, rest) :: ways := by
  have hend := q.isWritten.endsNumeral h
  have hmantissa := q.literal.splitMantissa?_mantissa (q.literal.head?_exponentText hend)
  have hexponent := q.literal.splitExponent_exponentText hend
  have hunit := q.isWritten.splitUnit_append h
  have htext : q.text ++ rest
      = q.literal.mantissa ++ (q.literal.exponentText ++ (q.unitName ++ rest)) := by
    rw [text, Literal.text, List.append_assoc, List.append_assoc]
  unfold CalcExpression.operands
  rw [htext, hmantissa]
  simp only [hexponent, hunit]
  split
  · exact ⟨_, rfl⟩
  · exact ⟨_, rfl⟩

end Quantity

namespace CalcExpression

/-- **Soundness.** A term that is taken off a text is a quantity if its unit is known. -/
theorem exists_quantity_of_mem_operands {t rest : Text} {o : Operand} {u : TermUnit}
    (h : (o, rest) ∈ operands t) (hu : o.unit? = some u) :
    ∃ q : Quantity, q.operand = o ∧ q.unit = u ∧ t = q.text ++ rest := by
  obtain ⟨ht, hname⟩ := of_mem_operands h
  obtain ⟨l, hl⟩ := exists_literal_of_mem_operands h
  refine ⟨⟨l, o.unitName, u, (TermUnit.unit?_eq_some_iff hname).mp hu⟩, ?_, rfl, ?_⟩
  · rw [Quantity.operand, hl]
  · rw [ht, Quantity.text, hl]

/-! ## The operator -/

theorem splitOperator?_append (before after : Text.Blanks) (o : CalcOperator) {rest : Text}
    (hrest : ∀ c ∈ rest.head?, Text.isBlank c = false) :
    splitOperator? (before.val ++ o.symbol ++ after.val ++ rest) = some (o, rest) := by
  have hdrop := Text.dropWhile_append_stop after.property hrest
  have hfront : (before.val ++ o.symbol ++ after.val ++ rest).dropWhile Text.isBlank
      = o.symbol ++ (after.val ++ rest) := by
    rw [List.append_assoc, List.append_assoc]
    exact Text.dropWhile_append_stop before.property (o.head?_symbol _)
  unfold splitOperator?
  rw [hfront]
  cases o with
  | plus => exact congrArg (fun r => some (CalcOperator.plus, r)) hdrop
  | minus => exact congrArg (fun r => some (CalcOperator.minus, r)) hdrop

theorem exists_of_splitOperator? {t rest : Text} {o : CalcOperator}
    (h : splitOperator? t = some (o, rest)) :
    ∃ before after : Text.Blanks, t = before.val ++ o.symbol ++ after.val ++ rest := by
  have hblank (s : Text) : ∀ c ∈ s.takeWhile Text.isBlank, Text.isBlank c = true :=
    fun c hc => List.mem_takeWhile_imp hc
  have hsplit : ∃ more, t.dropWhile Text.isBlank = o.symbol ++ more
      ∧ more.dropWhile Text.isBlank = rest := by
    unfold splitOperator? at h
    split at h
    · next more hmore => cases h; exact ⟨more, hmore, rfl⟩
    · next more hmore => cases h; exact ⟨more, hmore, rfl⟩
    · cases h
  obtain ⟨more, hmore, rfl⟩ := hsplit
  refine ⟨⟨_, hblank t⟩, ⟨_, hblank more⟩, ?_⟩
  rw [List.append_assoc, List.append_assoc, List.takeWhile_append_dropWhile, ← hmore,
    List.takeWhile_append_dropWhile]

theorem lastOperand?_text (q : Quantity) : lastOperand? q.text = some q.operand := by
  obtain ⟨ways, hways⟩ := q.operands_text endsQuantity_nil
  rw [List.append_nil] at hways
  unfold lastOperand?
  rw [hways]
  rfl

/-- Where there is no line break the last term ends the text. -/
theorem exists_of_lastOperand? {t : Text} {o : Operand} (h : lastOperand? t = some o)
    (hbreak : '\n' ∉ t) : (o, []) ∈ operands t := by
  obtain ⟨⟨_, rest⟩, hfind, rfl⟩ := Option.map_eq_some_iff.mp h
  have hmem := List.mem_of_find?_eq_some hfind
  have hend := List.find?_some hfind
  simp only [atEnd, Bool.or_eq_true, decide_eq_true_eq] at hend
  rcases hend with rfl | rfl
  · exact hmem
  · refine absurd ?_ hbreak
    rw [(of_mem_operands hmem).1]
    simp

end CalcExpression

/-! ## Taking a body apart -/

namespace CalcBody

variable (b : CalcBody)

theorem endsQuantity_operatorText (t : Text) : EndsQuantity (b.operatorText ++ t) := by
  refine endsQuantity_of_head? fun c hc => ?_
  unfold operatorText at hc
  rw [List.append_assoc, List.append_assoc] at hc
  rcases Text.head?_append_cases hc with hbefore | hc
  · exact .inl (b.before.property c (List.mem_of_mem_head? hbefore))
  · cases hoperator : b.operator <;> · rw [hoperator] at hc; cases hc; decide

/-- **Completeness.** A body comes apart at its operator. -/
theorem split?_text : CalcExpression.split? b.text
    = some (b.left.operand, b.operator, b.right.operand) := by
  obtain ⟨ways, hways⟩ := b.left.operands_text (b.endsQuantity_operatorText b.right.text)
  have hoperator : CalcExpression.splitOperator? (b.operatorText ++ b.right.text)
      = some (b.operator, b.right.text) :=
    CalcExpression.splitOperator?_append b.before b.after b.operator b.right.head?_text
  unfold CalcExpression.split? text
  rw [hways, List.findSome?_cons]
  simp only [hoperator, Option.bind_some, CalcExpression.lastOperand?_text, Option.map_some]

/-- **Soundness.** What comes apart into terms with known units is a body. -/
theorem exists_of_split? {content : Text} {left right : CalcExpression.Operand} {o : CalcOperator}
    {u v : TermUnit} (h : CalcExpression.split? content = some (left, o, right))
    (hbreak : '\n' ∉ content) (hu : left.unit? = some u) (hv : right.unit? = some v) :
    ∃ b : CalcBody, content = b.text ∧ b.left.operand = left ∧ b.left.unit = u ∧ b.operator = o
      ∧ b.right.operand = right ∧ b.right.unit = v := by
  obtain ⟨⟨_, rest⟩, hleft, hbind⟩ := List.exists_of_findSome?_eq_some h
  obtain ⟨⟨_, tail⟩, hoperator, hmap⟩ := Option.bind_eq_some_iff.mp hbind
  obtain ⟨_, hlast, heq⟩ := Option.map_eq_some_iff.mp hmap
  cases heq
  obtain ⟨p, hp, hpunit, hcontent⟩ := CalcExpression.exists_quantity_of_mem_operands hleft hu
  obtain ⟨before, after, hrest⟩ := CalcExpression.exists_of_splitOperator? hoperator
  have hbreak : '\n' ∉ tail := by
    intro hmem
    refine hbreak ?_
    rw [hcontent, hrest]
    simp [hmem]
  have hright := CalcExpression.exists_of_lastOperand? hlast hbreak
  obtain ⟨q, hq, hqunit, htail⟩ := CalcExpression.exists_quantity_of_mem_operands hright hv
  rw [List.append_nil] at htail
  refine ⟨⟨p, before, o, after, q⟩, ?_, hp, hpunit, rfl, hq, hqunit⟩
  rw [hcontent, hrest, htail]
  rfl

/-- **Uniqueness.** A text is a body in one way only. -/
theorem text_inj {b b' : CalcBody} (h : b.text = b'.text) : b = b' := by
  obtain ⟨hleft, hrest⟩ := Quantity.text_append_inj
    (b.endsQuantity_operatorText b.right.text) (b'.endsQuantity_operatorText b'.right.text) h
  unfold operatorText at hrest
  simp only [List.append_assoc] at hrest
  -- the blanks are the runs of blanks before the operator and behind it
  obtain ⟨hbefore, hrest⟩ := Text.append_stop_inj b.before.property (b.operator.head?_symbol _)
    b'.before.property (b'.operator.head?_symbol _) hrest
  obtain ⟨hoperator, hrest⟩ : b.operator = b'.operator
      ∧ b.after.val ++ b.right.text = b'.after.val ++ b'.right.text := by
    cases ho : b.operator <;> cases ho' : b'.operator <;>
      simp_all [CalcOperator.symbol]
  obtain ⟨hafter, hright⟩ := Text.append_stop_inj b.after.property b.right.head?_text
    b'.after.property b'.right.head?_text hrest
  rw [← List.append_nil b.right.text, ← List.append_nil b'.right.text] at hright
  obtain ⟨hright, -⟩ := Quantity.text_append_inj endsQuantity_nil endsQuantity_nil hright
  obtain ⟨left, before, operator, after, right⟩ := b
  obtain ⟨left', before', operator', after', right'⟩ := b'
  rw [CalcBody.mk.injEq]
  exact ⟨hleft, Subtype.ext hbefore, hoperator, Subtype.ext hafter, hright⟩

/-- A text is the calculation `b`, blanks around it apart and with its white space normalized. -/
def IsWritten (b : CalcBody) (t : Text) : Prop :=
  ∃ body, t.trim = CalcSource.opening ++ body ++ [')'] ∧ Text.join [' '] body.words = b.text

theorem IsWritten.unique {b b' : CalcBody} {t : Text} (h : b.IsWritten t) (h' : b'.IsWritten t) :
    b = b' := by
  obtain ⟨body, ht, htext⟩ := h
  obtain ⟨body', ht', htext'⟩ := h'
  obtain rfl : body = body' := by
    rw [ht] at ht'
    exact List.append_cancel_left (List.append_cancel_right ht')
  exact text_inj (htext.symm.trans htext')

theorem IsWritten.ofText? {b : CalcBody} {t : Text} (h : b.IsWritten t) :
    CalcSource.ofText? t = some ⟨b.text⟩ := by
  obtain ⟨body, ht, htext⟩ := h
  have hblank : Text.isBlankText body = false := by
    rw [← Bool.not_eq_true]
    intro hblank
    obtain ⟨c, more, hleft, -⟩ := b.left.exists_text_cons
    rw [Text.words_of_blank hblank, text, hleft] at htext
    cases htext
  rw [CalcSource.ofText?, CalcSource.body?_of_trim ht hblank, Option.map_some, htext]

end CalcBody

/-! ## Reading -/

namespace CalcExpression

/-- The calculation of a body and the values of its numbers. -/
def ofBody (b : CalcBody) (x y : Binary64) : CalcExpression :=
  ⟨⟨.double x, b.left.unit⟩, b.operator, ⟨.double y, b.right.unit⟩⟩

theorem ofSource_text (b : CalcBody) {x y : Binary64}
    (hx : Binary64.readFinite? b.left.literal.text = some x)
    (hy : Binary64.readFinite? b.right.literal.text = some y) :
    ofSource ⟨b.text⟩ = .ok (ofBody b x y) := by
  have hleft : Binary64.readFinite? b.left.operand.number = some x := hx
  have hright : Binary64.readFinite? b.right.operand.number = some y := hy
  unfold ofSource
  simp only [b.split?_text, hleft, hright, b.left.unit?_operand, b.right.unit?_operand]
  rfl

theorem exists_of_ofSource {content : Text} {e : CalcExpression} (h : ofSource ⟨content⟩ = .ok e)
    (hbreak : '\n' ∉ content) :
    ∃ (b : CalcBody) (x y : Binary64), content = b.text
      ∧ Binary64.readFinite? b.left.literal.text = some x
      ∧ Binary64.readFinite? b.right.literal.text = some y ∧ e = ofBody b x y := by
  unfold ofSource at h
  split at h
  · cases h
  next left o right hsplit =>
  split at h
  · next x y hx hy =>
    split at h
    · next u v hu hv =>
      obtain ⟨b, hcontent, rfl, rfl, rfl, rfl, rfl⟩ :=
        CalcBody.exists_of_split? hsplit hbreak hu hv
      cases h
      exact ⟨b, x, y, hcontent, hx, hy, rfl⟩
    · cases h
  · cases h

/-- A calculation is read if it is written in the grammar and its numbers are in range. -/
theorem read_eq_ok_iff {t : Text} {e : CalcExpression} :
    read t = .ok e ↔ ∃ (b : CalcBody) (x y : Binary64), b.IsWritten t
      ∧ Binary64.readFinite? b.left.literal.text = some x
      ∧ Binary64.readFinite? b.right.literal.text = some y ∧ e = ofBody b x y := by
  unfold read
  constructor
  · intro h
    split at h
    · cases h
    · next s hs =>
      obtain ⟨body, hbody, rfl⟩ := Option.map_eq_some_iff.mp hs
      have ht := (CalcSource.body?_eq_some hbody).1
      have hbreak : '\n' ∉ Text.join [' '] body.words := by
        intro hmem
        rcases Text.of_mem_join_words hmem with hspace | hblank
        · exact absurd hspace (by decide)
        · exact absurd hblank (by decide)
      obtain ⟨b, x, y, htext, hx, hy, he⟩ := exists_of_ofSource h hbreak
      exact ⟨b, x, y, ⟨body, ht, htext⟩, hx, hy, he⟩
  · rintro ⟨b, x, y, hwritten, hx, hy, rfl⟩
    rw [hwritten.ofText?]
    exact ofSource_text b hx hy

/-- **Grammar.** A text is read as a calculation just if it is `calc(`, a body and `)`, and there is
a double nearest to each number of the body. The result is made of these doubles, of the units and
of the operator, and there is never more than one body to take them from. -/
theorem read_grammar (t : Text) :
    (∀ e, read t = .ok e ↔ ∃ (b : CalcBody) (x y : Binary64), b.IsWritten t
      ∧ Binary64.IsNearest false b.left.literal.magnitude x
      ∧ Binary64.IsNearest false b.right.literal.magnitude y
      ∧ e = ⟨⟨.double x, b.left.unit⟩, b.operator, ⟨.double y, b.right.unit⟩⟩)
    ∧ ∀ b b' : CalcBody, b.IsWritten t → b'.IsWritten t → b = b' := by
  have hnumber (l : Literal) (x : Binary64) :
      Binary64.readFinite? l.text = some x ↔ Binary64.IsNearest false l.magnitude x :=
    l.readFinite?_text_iff .absent
  refine ⟨fun e => ?_, fun b b' h h' => h.unique h'⟩
  simp only [read_eq_ok_iff, hnumber]
  rfl

/-- Signs inside the exponents and between the terms, no blanks, and a unit in capitals. -/
theorem read_grammar_exponents : ∃ (e : CalcExpression) (b : CalcBody),
    read " calc(1e+1PX+.5E-3em) ".toList = .ok e ∧ b.IsWritten " calc(1e+1PX+.5E-3em) ".toList
      ∧ e.operator = b.operator ∧ e.left.unit = b.left.unit ∧ e.right.unit = b.right.unit
      ∧ ∀ b' : CalcBody, b'.IsWritten " calc(1e+1PX+.5E-3em) ".toList → b' = b := by
  obtain ⟨e, he⟩ := exists_of_isOk (r := read " calc(1e+1PX+.5E-3em) ".toList) (by decide +kernel)
  obtain ⟨b, x, y, hb, -, -, rfl⟩ := ((read_grammar _).1 e).mp he
  exact ⟨_, b, he, hb, rfl, rfl, rfl, fun b' hb' => (read_grammar _).2 b' b hb' hb⟩

end CalcExpression

end CssValues
