import CssValues.Percentage
import CssValues.Proofs.Length
import CssValues.Proofs.Number.Pattern
import CssValues.Proofs.Spelling

/-!
# Numbers beyond the doubles

Whatever is told from a text as a number is a literal, and a literal always reads as a double: the
one nearest to its value, or an infinity from the overflow on. So a length, a percentage or a
calculation is refused as out of range just where a number is too large, and never because a number
cannot be read. Main result: `every_literal_reads`.
-/

namespace CssValues

open Binary64 (overflow read? readFinite? IsNearest)

/-! ## Literals -/

namespace Literal

variable (s : Sign) (l : Literal)

/-- A literal reads as the double nearest to its value or, from the overflow on, as an infinity. -/
theorem read?_cases :
    (∃ x, read? (s.text ++ l.text) = some x ∧ readFinite? (s.text ++ l.text) = some x
        ∧ IsNearest s.isMinus l.magnitude x)
      ∨ overflow ≤ l.magnitude ∧ read? (s.text ++ l.text) = some (.infinite s.isMinus)
        ∧ readFinite? (s.text ++ l.text) = none := by
  have hread := l.read?_eq_ofMagnitude s
  rcases lt_or_ge l.magnitude overflow with hless | hlarge
  · have hnearest := Binary64.isNearest_ofMagnitude s.isMinus l.magnitude_nonneg hless
    exact .inl ⟨_, hread, (l.readFinite?_text_iff s).mpr hnearest, hnearest⟩
  · rw [Binary64.ofMagnitude_of_overflow _ hlarge] at hread
    exact .inr ⟨hlarge, hread, by rw [readFinite?, hread]; rfl⟩

theorem readFinite?_eq_none_iff :
    readFinite? (s.text ++ l.text) = none ↔ overflow ≤ l.magnitude := by
  rcases read?_cases s l with ⟨x, -, hx, hnearest⟩ | ⟨hlarge, -, hnone⟩
  · simp [hx, hnearest.1]
  · simp [hlarge, hnone]

end Literal

/-! ## A number and what stands behind it -/

/-- Letters alone do not continue a number, not even an `e`. -/
theorem endsNumeral_of_letters {name : Text} (h : ∀ c ∈ name, Text.isLetter c = true) :
    EndsNumeral name := by
  match name with
  | [] => exact endsNumeral_nil
  | [c] =>
    obtain ⟨hdigit, -, -, hdot, -⟩ := Text.of_isLetter (h c (by simp))
    refine ⟨?_, by simp [splitExponent, splitSign]⟩
    rintro d ⟨⟩
    exact ⟨hdigit, hdot⟩
  | c :: d :: rest => exact endsNumeral_letters (h c (by simp)) (h d (by simp)) rest

/-- Where the number at the front of a text has no finite double, it is a literal that overflows. -/
theorem splitNumber?_overflow_iff {t : Text} {P : Text → Prop}
    (hP : ∀ name, P name → EndsNumeral name) :
    (∃ number name, splitNumber? t = some (number, name) ∧ P name ∧ readFinite? number = none)
      ↔ ∃ (s : Sign) (l : Literal) (name : Text), t = s.text ++ l.text ++ name ∧ P name
        ∧ overflow ≤ l.magnitude := by
  constructor
  · rintro ⟨number, name, hsplit, hname, hnone⟩
    obtain ⟨s, l, rfl, ht⟩ := Literal.exists_of_splitNumber? hsplit
    exact ⟨s, l, name, ht, hname, (Literal.readFinite?_eq_none_iff s l).mp hnone⟩
  · rintro ⟨s, l, name, rfl, hname, hlarge⟩
    exact ⟨_, name, l.splitNumber?_text s (hP name hname), hname,
      (Literal.readFinite?_eq_none_iff s l).mpr hlarge⟩

/-! ## Lengths -/

namespace Length

theorem checked_ne_outOfRange (l : Length) : checked l ≠ .error .outOfRange := by
  unfold checked
  split
  · simp
  · split <;> simp

theorem read_eq_outOfRange_iff {t : Text} : read t = .error .outOfRange ↔ ∃ number name,
    splitNumber? t.trim = some (number, name) ∧ (∀ c ∈ name, Text.isLetter c = true)
      ∧ readFinite? number = none := by
  constructor
  · intro h
    unfold read at h
    dsimp only at h
    split at h
    · cases h
    split at h
    · cases h
    split at h
    · cases h
    next number name hsplit =>
    split at h
    · next hletters =>
      split at h
      · next hnone => exact ⟨number, name, hsplit, List.all_eq_true.mp hletters, hnone⟩
      · split at h
        · cases h
        · split at h
          · cases h
          · exact absurd h (checked_ne_outOfRange _)
    · cases h
  · rintro ⟨number, name, hsplit, hletters, hnone⟩
    unfold read
    simp only [isEmpty_of_splitNumber? hsplit, isNonNumericKeyword_of_splitNumber? hsplit, hsplit,
      List.all_eq_true.mpr hletters, Bool.false_eq_true, if_false, if_true]
    split
    · rfl
    · next x hx =>
      rw [hnone] at hx
      cases hx

end Length

/-! ## Percentages -/

theorem Percentage.read_eq_outOfRange_iff {t : Text} : read t = .error .outOfRange ↔ ∃ number name,
    splitNumber? t.trim = some (number, name) ∧ name = ['%'] ∧ readFinite? number = none := by
  unfold read
  constructor
  · intro h
    split at h
    · next number hsplit =>
      split at h
      · next hnone => exact ⟨number, _, hsplit, rfl, hnone⟩
      · cases h
    · cases h
  · rintro ⟨number, _, hsplit, rfl, hnone⟩
    simp only [hsplit, hnone]

/-! ## Calculations -/

/-- The body is told apart into two terms, and the number of one of them is beyond the doubles. -/
def CalcSource.IsOutOfRange (source : CalcSource) : Prop :=
  ∃ (l r : Literal) (u v : Text) (o : CalcOperator),
    CalcExpression.split? source.content = some (⟨l.text, u⟩, o, ⟨r.text, v⟩)
      ∧ (overflow ≤ l.magnitude ∨ overflow ≤ r.magnitude)

namespace CalcExpression

/-- The numbers of both terms are literals, whatever their units are. -/
theorem exists_literals_of_split? {content : Text} {left right : Operand} {o : CalcOperator}
    (h : split? content = some (left, o, right)) :
    ∃ l r : Literal, l.text = left.number ∧ r.text = right.number := by
  obtain ⟨⟨_, rest⟩, hleft, hbind⟩ := List.exists_of_findSome?_eq_some h
  obtain ⟨⟨_, tail⟩, -, hmap⟩ := Option.bind_eq_some_iff.mp hbind
  obtain ⟨_, hlast, heq⟩ := Option.map_eq_some_iff.mp hmap
  cases heq
  obtain ⟨_, hright, -⟩ := exists_lastOperand hlast
  obtain ⟨l, hl⟩ := exists_literal_of_mem_operands hleft
  obtain ⟨r, hr⟩ := exists_literal_of_mem_operands hright
  exact ⟨l, r, hl, hr⟩

theorem ofSource_eq_outOfRange_iff {source : CalcSource} :
    ofSource source = .error .outOfRange ↔ ∃ left o right,
      split? source.content = some (left, o, right)
        ∧ (readFinite? left.number = none ∨ readFinite? right.number = none) := by
  unfold ofSource
  constructor
  · intro h
    split at h
    · cases h
    next left o right hsplit =>
    split at h
    · split at h
      · cases h
      · cases h
    · next hnot =>
      refine ⟨left, o, right, hsplit, ?_⟩
      cases hx : readFinite? left.number with
      | none => exact .inl rfl
      | some x => exact .inr (Option.eq_none_iff_forall_ne_some.mpr fun y hy => hnot x y hx hy)
  · rintro ⟨left, o, right, hsplit, hnone⟩
    simp only [hsplit]
    split
    · next x y hx hy =>
      rw [hx, hy] at hnone
      simp at hnone
    · rfl

/-- A calculation is refused as out of range just where one of its literals is. -/
theorem ofSource_overflow_iff {source : CalcSource} :
    ofSource source = .error .outOfRange ↔ source.IsOutOfRange := by
  have hiff (l : Literal) : readFinite? l.text = none ↔ overflow ≤ l.magnitude :=
    l.readFinite?_eq_none_iff .absent
  rw [ofSource_eq_outOfRange_iff]
  constructor
  · rintro ⟨⟨_, u⟩, o, ⟨_, v⟩, hsplit, hnone⟩
    obtain ⟨l, r, rfl, rfl⟩ := exists_literals_of_split? hsplit
    rw [hiff, hiff] at hnone
    exact ⟨l, r, u, v, o, hsplit, hnone⟩
  · rintro ⟨l, r, u, v, o, hsplit, hlarge⟩
    rw [← hiff, ← hiff] at hlarge
    exact ⟨_, o, _, hsplit, hlarge⟩

theorem read_overflow_iff {t : Text} : read t = .error .outOfRange
    ↔ ∃ source, CalcSource.ofText? t = some source ∧ source.IsOutOfRange := by
  unfold read
  cases CalcSource.ofText? t with
  | none => simp
  | some source => simp [ofSource_overflow_iff]

end CalcExpression

/-! ## Every number that is read -/

/-- **Every literal reads.** The scan for a number takes a text whole just if it matches the
pattern, and the texts of the pattern are the literals with a sign or without one. Every literal reads
as the double nearest to its value or, from the overflow on, as the infinity of its sign. What is
told from a text as a number, alone or in a calculation, always matches the pattern. So a length, a
percentage or a calculation is refused as out of range just where a literal in it overflows. -/
theorem every_literal_reads :
    (∀ t : Text, (t ∈ NumberPattern.number ↔ splitNumber? t = some (t, []))
      ∧ (t ∈ NumberPattern.number ↔ ∃ (s : Sign) (l : Literal), t = s.text ++ l.text))
    ∧ (∀ (s : Sign) (l : Literal),
      (∃ x, read? (s.text ++ l.text) = some x ∧ readFinite? (s.text ++ l.text) = some x
        ∧ IsNearest s.isMinus l.magnitude x)
      ∨ overflow ≤ l.magnitude ∧ read? (s.text ++ l.text) = some (.infinite s.isMinus)
        ∧ readFinite? (s.text ++ l.text) = none)
    ∧ (∀ t number rest, splitNumber? t = some (number, rest) → number ∈ NumberPattern.number)
    ∧ (∀ content left o right, CalcExpression.split? content = some (left, o, right) →
      left.number ∈ NumberPattern.number ∧ right.number ∈ NumberPattern.number)
    ∧ ∀ t : Text,
      (Length.read t = .error .outOfRange ↔ ∃ (s : Sign) (l : Literal) (name : Text),
        t.trim = s.text ++ l.text ++ name ∧ (∀ c ∈ name, Text.isLetter c = true)
          ∧ overflow ≤ l.magnitude)
      ∧ (Percentage.read t = .error .outOfRange ↔ ∃ (s : Sign) (l : Literal),
        t.trim = s.text ++ l.text ++ ['%'] ∧ overflow ≤ l.magnitude)
      ∧ (CalcExpression.ofSource ⟨t⟩ = .error .outOfRange ↔ CalcSource.IsOutOfRange ⟨t⟩)
      ∧ (CalcExpression.read t = .error .outOfRange
        ↔ ∃ source, CalcSource.ofText? t = some source ∧ source.IsOutOfRange) := by
  refine ⟨fun t => ⟨NumberPattern.mem_number_iff_splitNumber?, NumberPattern.mem_number_iff⟩,
    Literal.read?_cases, fun t number rest h => ?_, fun content left o right h => ?_,
    fun t => ⟨?_, ?_, CalcExpression.ofSource_overflow_iff, CalcExpression.read_overflow_iff⟩⟩
  · obtain ⟨s, l, rfl, -⟩ := Literal.exists_of_splitNumber? h
    exact NumberPattern.mem_number_iff.mpr ⟨s, l, rfl⟩
  · obtain ⟨l, r, hl, hr⟩ := CalcExpression.exists_literals_of_split? h
    rw [NumberPattern.mem_number_iff, NumberPattern.mem_number_iff]
    exact ⟨⟨.absent, l, hl.symm⟩, .absent, r, hr.symm⟩
  · rw [Length.read_eq_outOfRange_iff,
      splitNumber?_overflow_iff fun name => endsNumeral_of_letters]
  · rw [Percentage.read_eq_outOfRange_iff, splitNumber?_overflow_iff]
    · simp
    · rintro name rfl
      exact (TermUnit.isWritten_name .percent).endsNumeral endsQuantity_nil

/-- Digits of three scripts, nothing behind the point, and an exponent that is too large; an exponent
in front of a unit that starts like one; and a calculation without blanks. -/
theorem every_literal_reads_extremes :
    (∃ (s : Sign) (l : Literal), "-３.E+५०0".toList = s.text ++ l.text ∧ overflow ≤ l.magnitude
      ∧ read? "-３.E+५०0".toList = some (.infinite s.isMinus)
      ∧ Length.read " -３.E+५०0pX ".toList = .error .outOfRange)
    ∧ (splitNumber? "１.e-०3eM".toList = some ("１.e-०3".toList, "eM".toList)
      ∧ "１.e-०3".toList ∈ NumberPattern.number)
    ∧ CalcExpression.split? "1E+५em+.५%".toList
        = some (⟨"1E+५".toList, "em".toList⟩, .plus, ⟨".५".toList, "%".toList⟩)
      ∧ "1E+५".toList ∈ NumberPattern.number ∧ ".५".toList ∈ NumberPattern.number := by
  obtain ⟨hpattern, hcases, htold, hcalc, hrefused⟩ := every_literal_reads
  refine ⟨?_, ?_, ?_⟩
  · have hwhole : splitNumber? "-３.E+५०0".toList = some ("-３.E+५०0".toList, []) := by
      decide +kernel
    obtain ⟨s, l, htext⟩ := (hpattern _).2.mp ((hpattern _).1.mpr hwhole)
    have hnone : readFinite? (s.text ++ l.text) = none := by
      rw [← htext]
      decide +kernel
    rcases hcases s l with ⟨x, -, hx, -⟩ | ⟨hlarge, hread, -⟩
    · rw [hnone] at hx
      cases hx
    · have htrim : Text.trim " -３.E+५०0pX ".toList = "-３.E+५०0".toList ++ "pX".toList := by
        decide +kernel
      refine ⟨s, l, htext, hlarge, htext ▸ hread, ?_⟩
      refine (hrefused _).1.mpr ⟨s, l, "pX".toList, ?_, by decide, hlarge⟩
      rw [htrim, htext]
  · have hsplit : splitNumber? "１.e-०3eM".toList = some ("１.e-०3".toList, "eM".toList) := by
      decide +kernel
    exact ⟨hsplit, htold _ _ _ hsplit⟩
  · have hsplit : CalcExpression.split? "1E+५em+.५%".toList
        = some (⟨"1E+५".toList, "em".toList⟩, .plus, ⟨".५".toList, "%".toList⟩) := by rfl
    exact ⟨hsplit, hcalc _ _ _ _ hsplit⟩

end CssValues
