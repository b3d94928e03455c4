import CssValues.Calc.Expression
import CssValues.Proofs.Number.Numeral
import CssValues.Proofs.Text.Lowercase

/-!
# Numbers with units

The grammar of a number with a unit right behind it, in a style value or in a calculation. A unit is
written with its name in letters of either case, pixels also without a name. As no name is a letter
`e` alone, the letters behind a number are never in doubt: a text can start with a number and a unit
in one way only (`Quantity.text_append_inj`).
-/

namespace CssValues

namespace Text

/-- No letter is a digit, a sign, a point or a percent sign. -/
theorem of_isLetter {c : Char} (h : isLetter c = true) :
    isDigit c = false ∧ c ≠ '+' ∧ c ≠ '-' ∧ c ≠ '.' ∧ c ≠ '%' := by
  refine ⟨?_, ?_, ?_, ?_, ?_⟩
  · rw [← Bool.not_eq_true]
    intro hdigit
    have hcode := isLetter_iff.mp h
    rcases isAsciiDigit_or_of_isDigit hdigit with hascii | hbeyond
    · have := isAsciiDigit_iff.mp hascii
      omega
    · omega
  all_goals
    rintro rfl
    exact absurd h (by decide)

end Text

/-! ## What may stand behind a unit -/

/-- Nothing at the front of the text could continue a number or the name of a unit. -/
def EndsQuantity (rest : Text) : Prop :=
  ∀ c ∈ rest.head?, Text.isDigit c = false ∧ Text.isLetter c = false ∧ c ≠ '.' ∧ c ≠ '%'

theorem endsQuantity_nil : EndsQuantity [] := by
  intro c hc
  cases hc

theorem splitExponent_of_not_mark {c : Char} (h : isExponentMark c = false)
    (digit : Char → Bool) (t : Text) : splitExponent digit (c :: t) = ([], c :: t) := by
  unfold splitExponent
  simp [h]

theorem isLetter_of_isExponentMark {c : Char} (h : isExponentMark c = true) :
    Text.isLetter c = true := by
  simp only [isExponentMark, Bool.or_eq_true, beq_iff_eq] at h
  rcases h with rfl | rfl <;> decide

theorem EndsQuantity.endsNumeral {rest : Text} (h : EndsQuantity rest) : EndsNumeral rest := by
  cases rest with
  | nil => exact endsNumeral_nil
  | cons c t =>
    obtain ⟨hdigit, hletter, hdot, -⟩ := h c rfl
    have hmark : isExponentMark c = false := by
      rw [← Bool.not_eq_true]
      intro hmark
      rw [isLetter_of_isExponentMark hmark] at hletter
      cases hletter
    refine ⟨?_, splitExponent_of_not_mark hmark _ t⟩
    rintro d ⟨⟩
    exact ⟨hdigit, hdot⟩

/-- Two letters are no exponent, whatever the first one is. -/
theorem endsNumeral_letters {c d : Char} (hc : Text.isLetter c = true)
    (hd : Text.isLetter d = true) (t : Text) : EndsNumeral (c :: d :: t) := by
  obtain ⟨hcdigit, -, -, hcdot, -⟩ := Text.of_isLetter hc
  obtain ⟨hddigit, hplus, hminus, -, -⟩ := Text.of_isLetter hd
  refine ⟨?_, ?_⟩
  · rintro e ⟨⟩
    exact ⟨hcdigit, hcdot⟩
  · unfold splitExponent
    simp [splitSign_of_ne hplus hminus, hddigit]

/-! ## Names of units -/

theorem LengthUnit.isLetter_of_mem_name (u : LengthUnit) :
    ∀ c ∈ u.name, Text.isLetter c = true := by
  cases u <;> decide

theorem LengthUnit.exists_name_eq_cons (u : LengthUnit) : ∃ c d t, u.name = c :: d :: t := by
  cases u <;> exact ⟨_, _, _, rfl⟩

/-- Letters are the name of a unit if they are so in small letters. -/
theorem LengthUnit.lookup?_eq_some_iff {name : Text} {u : LengthUnit}
    (h : name.all Text.isLetter = true) :
    lookup? name = some u ↔ Text.asciiLower name = u.name := by
  unfold lookup?
  rw [Text.lower_of_letters h]
  constructor
  · intro hfind
    have hname := List.find?_some hfind
    rw [decide_eq_true_eq] at hname
    exact hname.symm
  · intro hname
    dsimp only
    rw [hname]
    cases u <;> decide

theorem LengthUnit.name_inj {u v : LengthUnit} (h : u.name = v.name) : u = v := by
  cases u <;> cases v <;> first | rfl | exact absurd h (by decide)

namespace TermUnit

/-- How a unit is written behind a number: with its name in letters of either case, or not at all if
the number is in pixels. -/
def IsWritten (u : TermUnit) (name : Text) : Prop :=
  name = [] ∧ u = .length .px ∨ Text.asciiLower name = u.name

variable {u v : TermUnit} {name : Text}

theorem eq_percent_of_asciiLower (h : Text.asciiLower name = ['%']) : name = ['%'] := by
  obtain ⟨c, rfl, hc⟩ := List.map_eq_singleton_iff.mp h
  rw [Text.eq_of_toLower_eq hc (by decide)]

/-- A unit is written as nothing, as a percent sign, or with two or more letters. -/
theorem IsWritten.cases (h : u.IsWritten name) :
    name = [] ∧ u = .length .px ∨ name = ['%'] ∧ u = .percent
      ∨ ∃ w : LengthUnit, u = .length w ∧ Text.asciiLower name = w.name
        ∧ (∀ c ∈ name, Text.isLetter c = true) ∧ ∃ c d t, name = c :: d :: t := by
  rcases h with hnone | hname
  · exact .inl hnone
  · cases u with
    | percent => exact .inr (.inl ⟨eq_percent_of_asciiLower hname, rfl⟩)
    | length w =>
      refine .inr (.inr ⟨w, rfl, hname, fun c hc => ?_, ?_⟩)
      · refine Text.isLetter_of_toLower (w.isLetter_of_mem_name _ ?_)
        rw [show w.name = Text.asciiLower name from hname.symm]
        exact List.mem_map_of_mem hc
      · obtain ⟨c, d, t, hcons⟩ := w.exists_name_eq_cons
        rw [show (TermUnit.length w).name = w.name from rfl, hcons] at hname
        obtain ⟨c', tail, rfl, -, htail⟩ := List.map_eq_cons_iff.mp hname
        obtain ⟨d', tail', rfl, -, -⟩ := List.map_eq_cons_iff.mp htail
        exact ⟨c', d', tail', rfl⟩

/-- The name tells the unit. -/
theorem IsWritten.unique (hu : u.IsWritten name) (hv : v.IsWritten name) : u = v := by
  rcases hu.cases with ⟨rfl, rfl⟩ | ⟨rfl, rfl⟩ | ⟨w, rfl, hname, hletters, c, d, t, rfl⟩
  · rcases hv.cases with ⟨-, rfl⟩ | ⟨hnil, -⟩ | ⟨-, -, -, -, c, d, t, hnil⟩
    · rfl
    · cases hnil
    · cases hnil
  · rcases hv.cases with ⟨hnil, -⟩ | ⟨-, rfl⟩ | ⟨-, -, -, -, c, d, t, hcons⟩
    · cases hnil
    · rfl
    · cases hcons
  · rcases hv.cases with ⟨hnil, -⟩ | ⟨hcons, -⟩ | ⟨w', rfl, hname', -⟩
    · cases hnil
    · cases hcons
    · rw [LengthUnit.name_inj (hname.symm.trans hname')]

/-- The name of a unit does not continue the number in front of it. -/
theorem IsWritten.endsNumeral (h : u.IsWritten name) {rest : Text} (hrest : EndsQuantity rest) :
    EndsNumeral (name ++ rest) := by
  rcases h.cases with ⟨rfl, -⟩ | ⟨rfl, -⟩ | ⟨w, -, -, hletters, c, d, t, rfl⟩
  · exact hrest.endsNumeral
  · refine ⟨?_, rfl⟩
    rintro c ⟨⟩
    decide
  · exact endsNumeral_letters (hletters c (by simp)) (hletters d (by simp)) _

/-- The name of a unit is told from what stands behind it. -/
theorem IsWritten.splitUnit_append (h : u.IsWritten name) {rest : Text}
    (hrest : EndsQuantity rest) : CalcExpression.splitUnit (name ++ rest) = (name, rest) := by
  have hstop : ∀ c ∈ rest.head?, Text.isLetter c = false := fun c hc => (hrest c hc).2.1
  -- letters at the front, or nothing, are no percent sign
  have hletters : (∀ c ∈ name, Text.isLetter c = true) →
      CalcExpression.splitUnit (name ++ rest) = (name, rest) := by
    intro hname
    unfold CalcExpression.splitUnit
    split
    · next more heq =>
      cases name with
      | nil =>
        rw [List.nil_append] at heq
        rw [heq] at hrest
        exact absurd rfl (hrest '%' rfl).2.2.2
      | cons c t =>
        obtain rfl := (List.cons.inj heq).1
        exact absurd rfl (Text.of_isLetter (hname _ List.mem_cons_self)).2.2.2.2
    · rw [Text.takeWhile_append_stop hname hstop, Text.dropWhile_append_stop hname hstop]
  rcases h.cases with ⟨rfl, -⟩ | ⟨rfl, -⟩ | ⟨w, -, -, hname, -⟩
  · exact hletters (by simp)
  · rfl
  · exact hletters hname

theorem unit?_percent_iff {number : Text} :
    (CalcExpression.Operand.mk number ['%']).unit? = some u ↔ u.IsWritten ['%'] := by
  have hlower : Text.lower ['%'] = ['%'] := by decide
  unfold CalcExpression.Operand.unit? TermUnit.lookup?
  dsimp only
  rw [if_neg (by decide), if_pos hlower]
  constructor
  · intro h
    cases h
    exact .inr rfl
  · intro h
    rcases h.cases with ⟨hnil, -⟩ | ⟨-, rfl⟩ | ⟨-, -, -, -, c, d, t, hcons⟩
    · cases hnil
    · rfl
    · cases hcons

theorem unit?_letters_iff {number : Text} (hletters : name.all Text.isLetter = true) :
    (CalcExpression.Operand.mk number name).unit? = some u ↔ u.IsWritten name := by
  have hlookup {w : LengthUnit} := LengthUnit.lookup?_eq_some_iff (u := w) hletters
  have hpercent : Text.lower name ≠ ['%'] := by
    rw [Text.lower_of_letters hletters]
    intro h
    rw [eq_percent_of_asciiLower h] at hletters
    exact absurd hletters (by decide)
  unfold CalcExpression.Operand.unit? TermUnit.lookup?
  dsimp only
  rw [if_neg hpercent]
  constructor
  · intro h
    split at h
    · next hempty =>
      cases h
      exact .inl ⟨List.isEmpty_iff.mp hempty, rfl⟩
    · obtain ⟨w, hw, rfl⟩ := Option.map_eq_some_iff.mp h
      exact .inr (hlookup.mp hw)
  · intro h
    rcases h.cases with ⟨rfl, rfl⟩ | ⟨rfl, -⟩ | ⟨w, rfl, hlower, -, c, d, t, rfl⟩
    · rfl
    · exact absurd hletters (by decide)
    · rw [if_neg (by simp), hlookup.mpr hlower]
      rfl

/-- **Units.** Among letters and the percent sign the names that are known are those of units. -/
theorem unit?_eq_some_iff {number : Text} (hname : name = ['%'] ∨ name.all Text.isLetter = true) :
    (CalcExpression.Operand.mk number name).unit? = some u ↔ u.IsWritten name := by
  rcases hname with rfl | hletters
  · exact unit?_percent_iff
  · exact unit?_letters_iff hletters

theorem isWritten_name (u : TermUnit) : u.IsWritten u.name := by
  right
  rcases u with u | _
  · cases u <;> decide
  · decide

end TermUnit

/-! ## The grammar -/

/-- A number without sign and the name of a unit right behind it. -/
structure Quantity where
  literal : Literal
  unitName : Text
  unit : TermUnit
  isWritten : unit.IsWritten unitName

namespace Quantity

def text (q : Quantity) : Text := q.literal.text ++ q.unitName

/-- **Uniqueness.** A text can start with a number and a unit in one way only, if what stands behind
does not continue them. -/
theorem text_append_inj {q q' : Quantity} {r r' : Text} (hr : EndsQuantity r)
    (hr' : EndsQuantity r') (h : q.text ++ r = q'.text ++ r') : q = q' ∧ r = r' := by
  have hunit := q.isWritten.splitUnit_append hr
  have hunit' := q'.isWritten.splitUnit_append hr'
  unfold text at h
  rw [List.append_assoc, List.append_assoc] at h
  obtain ⟨hliteral, hrest⟩ :=
    Literal.text_append_inj (q.isWritten.endsNumeral hr) (q'.isWritten.endsNumeral hr') h
  rw [hrest, hunit'] at hunit
  obtain ⟨hname, rfl⟩ := Prod.mk.inj hunit
  refine ⟨?_, rfl⟩
  obtain ⟨literal, name, u, hu⟩ := q
  obtain ⟨literal', name', u', hu'⟩ := q'
  obtain rfl : literal = literal' := hliteral
  obtain rfl : name' = name := hname
  obtain rfl := hu.unique hu'
  rfl

/-- A sign in front is told from the number too. -/
theorem signed_text_inj {q q' : Quantity} {s s' : Sign} (h : s.text ++ q.text = s'.text ++ q'.text) :
    s = s' ∧ q = q' := by
  have hsign := q.literal.splitSign_text s q.unitName
  have hsign' := q'.literal.splitSign_text s' q'.unitName
  unfold text at h
  rw [h, hsign'] at hsign
  obtain ⟨hs, htext⟩ := Prod.mk.inj hsign
  refine ⟨(Sign.text_inj hs).symm, ?_⟩
  have hquantity : q.text ++ [] = q'.text ++ [] := by
    rw [List.append_nil, List.append_nil]
    exact htext.symm
  exact (text_append_inj endsQuantity_nil endsQuantity_nil hquantity).1

theorem exists_text_cons (q : Quantity) :
    ∃ c t, q.text = c :: t ∧ (Text.isDigit c = true ∨ c = '.') := by
  obtain ⟨c, t, htext, hc⟩ := q.literal.exists_text_cons
  exact ⟨c, t ++ q.unitName, by rw [text, htext, List.cons_append], hc⟩

theorem isBlank_of_mem_text (q : Quantity) {c : Char} (h : c ∈ q.text) : Text.isBlank c = false := by
  rcases List.mem_append.mp h with hliteral | hname
  · exact q.literal.isBlank_of_mem_text hliteral
  · rcases q.isWritten.cases with ⟨hnil, -⟩ | ⟨hpercent, -⟩ | ⟨-, -, -, hletters, -⟩
    · rw [hnil] at hname
      cases hname
    · rw [hpercent] at hname
      obtain rfl := List.mem_singleton.mp hname
      decide
    · have hcode := Text.printing_of_isLetter (hletters c hname)
      exact Text.isBlank_of_printing hcode.1 hcode.2

/-- There are no blanks to be trimmed. -/
theorem trim_signed_text (s : Sign) (q : Quantity) :
    Text.trim (s.text ++ q.text) = s.text ++ q.text := by
  refine Text.trimWhere_of_none fun c hc => ?_
  rcases List.mem_append.mp hc with hsign | hc
  · rcases Literal.mem_sign_text hsign with rfl | rfl <;> decide
  · exact q.isBlank_of_mem_text hc

/-- A number and its unit are told apart. -/
theorem splitNumber?_signed_text (s : Sign) (q : Quantity) :
    splitNumber? (s.text ++ q.text) = some (s.text ++ q.literal.text, q.unitName) := by
  have hend := q.isWritten.endsNumeral endsQuantity_nil
  rw [List.append_nil] at hend
  rw [text, ← List.append_assoc, q.literal.splitNumber?_text s hend]

end Quantity

/-- A numeral with the name of a unit. -/
def Numeral.withUnit (n : Numeral) (u : TermUnit) : Quantity :=
  ⟨n.toLiteral, u.name, u, u.isWritten_name⟩

theorem Numeral.text_withUnit (n : Numeral) (u : TermUnit) :
    (n.withUnit u).text = n.text ++ u.name := by
  rw [Quantity.text, withUnit, n.text_toLiteral]

theorem Numeral.literal_text_withUnit (n : Numeral) (u : TermUnit) :
    (n.withUnit u).literal.text = n.text := n.text_toLiteral

theorem Numeral.signed_text_withUnit (n : Numeral) (negative : Bool) (u : TermUnit) :
    (Sign.ofNegative negative).text ++ (n.withUnit u).text = signed negative n.text ++ u.name := by
  rw [n.text_withUnit, signed_eq, List.append_assoc]

end CssValues
