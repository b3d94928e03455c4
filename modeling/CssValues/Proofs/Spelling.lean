import CssValues.Proofs.Quantity
import CssValues.Resolver
import Mathlib.Data.List.Basic

/-!
# Spellings of values that resolve

A value that resolves is, blanks around it apart, an unbroken row of figures or a calculation with
figures and blanks inside (`Resolver.spelled_of_size`).
-/

namespace CssValues

/-- A character of numbers, units and operators. No unit has a letter `u`. -/
def isFigure (c : Char) : Bool :=
  Text.isDigit c || (Text.isLetter c && c != 'u' && c != 'U') || ['+', '-', '.', '%'].contains c

/-- A trimmed text made of figures, in one row or in a calculation. -/
inductive Spelled : Text → Prop where
  | figures {t : Text} (hne : t ≠ []) (h : ∀ c ∈ t, isFigure c = true) : Spelled t
  | calculation {body : Text} (hne : Text.isBlankText body = false)
      (h : ∀ c ∈ body, isFigure c = true ∨ Text.isBlank c = true) :
      Spelled (CalcSource.opening ++ body ++ [')'])

theorem Spelled.ne_nil {t : Text} (h : Spelled t) : t ≠ [] := by
  cases h with
  | figures hne _ => exact hne
  | calculation _ _ => simp

/-! ## Figures -/

/-- A character of numbers. -/
def isNumberChar (c : Char) : Bool := Text.isDigit c || ['+', '-', '.', 'e', 'E'].contains c

theorem isFigure_of_isNumberChar {c : Char} (h : isNumberChar c = true) : isFigure c = true := by
  simp only [isNumberChar, Bool.or_eq_true, List.contains_eq_mem, decide_eq_true_eq] at h
  rcases h with h | h
  · simp [isFigure, h]
  · revert c
    decide

theorem isNumberChar_of_isDigit {c : Char} (h : Text.isDigit c = true) :
    isNumberChar c = true := by
  simp [isNumberChar, h]

theorem isNumberChar_of_isExponentMark {c : Char} (h : isExponentMark c = true) :
    isNumberChar c = true := by
  rcases (Bool.or_eq_true _ _).mp h with h | h
  · rw [eq_of_beq h]; decide
  · rw [eq_of_beq h]; decide

theorem isBlank_of_isFigure {c : Char} (h : isFigure c = true) : Text.isBlank c = false := by
  simp only [isFigure, Bool.or_eq_true, Bool.and_eq_true, List.contains_eq_mem,
    decide_eq_true_eq] at h
  rcases h with (h | h) | h
  · exact Text.isBlank_of_isDigit h
  · have := Text.printing_of_isLetter h.1.1
    exact Text.isBlank_of_printing this.1 this.2
  · revert c
    decide

/-! ## Numbers -/

theorem splitSign_chars (t : Text) : ∀ c ∈ (splitSign t).1, isNumberChar c = true := by
  unfold splitSign
  split
  · exact fun c hc => List.mem_singleton.mp hc ▸ by decide
  · exact fun c hc => List.mem_singleton.mp hc ▸ by decide
  · simp

theorem splitExponent_chars {digit : Char → Bool}
    (hdigit : ∀ c, digit c = true → isNumberChar c = true) (t : Text) :
    ∀ c ∈ (splitExponent digit t).1, isNumberChar c = true := by
  cases t with
  | nil => simp [splitExponent]
  | cons d rest =>
    unfold splitExponent
    dsimp only
    split
    · next hmark =>
      intro c hc
      rcases List.mem_append.mp hc with hc | hc
      · rcases List.mem_cons.mp hc with rfl | hc
        · exact isNumberChar_of_isExponentMark (Bool.and_eq_true_iff.mp hmark).1
        · exact splitSign_chars _ c hc
      · exact hdigit c (List.mem_takeWhile_imp hc)
    · simp

theorem Literal.isNumberChar_of_mem_text (l : Literal) {c : Char} (h : c ∈ l.text) :
    isNumberChar c = true := by
  rcases l.mem_text h with hdigit | hmark
  · exact isNumberChar_of_isDigit hdigit
  · have hmarks : ∀ d ∈ ['.', 'e', 'E', '+', '-'], isNumberChar d = true := by decide
    exact hmarks c hmark

theorem splitNumber?_chars {t number rest : Text} (h : splitNumber? t = some (number, rest)) :
    t = number ++ rest ∧ number ≠ [] ∧ ∀ c ∈ number, isNumberChar c = true := by
  obtain ⟨s, l, rfl, ht⟩ := Literal.exists_of_splitNumber? h
  obtain ⟨c, more, htext, -⟩ := l.exists_text_cons
  refine ⟨ht, by simp [htext], fun d hd => ?_⟩
  rcases List.mem_append.mp hd with hsign | hd
  · rcases Literal.mem_sign_text hsign with rfl | rfl <;> decide
  · exact l.isNumberChar_of_mem_text hd

/-! ## Units -/

/-- A name of a unit of length has no `u`. -/
theorem LengthUnit.figures_of_name {u : LengthUnit} {t : Text}
    (hletters : ∀ c ∈ t, Text.isLetter c = true) (h : Text.asciiLower t = u.name) :
    ∀ c ∈ t, isFigure c = true := by
  have hu : 'u' ∉ Text.asciiLower t := by
    rw [h]
    cases u <;> decide
  intro c hc
  have hsmall : c ≠ 'u' := fun heq => hu (List.mem_map.mpr ⟨c, hc, by rw [heq]; rfl⟩)
  have hcapital : c ≠ 'U' := fun heq => hu (List.mem_map.mpr ⟨c, hc, by rw [heq]; rfl⟩)
  simp [isFigure, hletters c hc, hsmall, hcapital]

theorem LengthUnit.figures_of_lookup? {t : Text} {u : LengthUnit}
    (hletters : t.all Text.isLetter = true) (h : lookup? t = some u) :
    ∀ c ∈ t, isFigure c = true :=
  figures_of_name (List.all_eq_true.mp hletters) ((lookup?_eq_some_iff hletters).mp h)

theorem TermUnit.IsWritten.figures {u : TermUnit} {name : Text} (h : u.IsWritten name) :
    ∀ c ∈ name, isFigure c = true := by
  rcases h.cases with ⟨rfl, -⟩ | ⟨rfl, -⟩ | ⟨w, -, hlower, hletters, -⟩
  · exact List.forall_mem_nil _
  · decide
  · exact LengthUnit.figures_of_name hletters hlower

/-! ## Lengths and percentages -/

theorem Length.eq_of_checked {l m : Length} (h : checked l = .ok m) : m = l := by
  unfold checked at h
  split at h
  · cases h
  · split at h
    · cases h
    · cases h; rfl
    · cases h

/-- The number and the unit of a length that was read. -/
theorem Length.exists_parts {t : Text} {l : Length} (h : read t = .ok l) :
    ∃ number unitName x, splitNumber? t.trim = some (number, unitName)
      ∧ unitName.all Text.isLetter = true
      ∧ (unitName = [] ∧ l.unit = .px ∨ LengthUnit.lookup? unitName = some l.unit)
      ∧ Binary64.readFinite? number = some x ∧ l.value = .double x := by
  unfold read at h
  dsimp only at h
  split at h
  · cases h
  split at h
  · cases h
  split at h
  · cases h
  · next number unitName hsplit =>
    split at h
    · next hletters =>
      split at h
      · cases h
      · next x hx =>
        refine ⟨number, unitName, x, hsplit, hletters, ?_⟩
        split at h
        · next hempty =>
          cases h
          exact ⟨.inl ⟨List.isEmpty_iff.mp hempty, rfl⟩, hx, rfl⟩
        · split at h
          · cases h
          · next u hu =>
            rw [eq_of_checked h]
            exact ⟨.inr hu, hx, rfl⟩
    · cases h

theorem Length.figures_of_read {t : Text} {l : Length} (h : read t = .ok l) :
    t.trim ≠ [] ∧ ∀ c ∈ t.trim, isFigure c = true := by
  obtain ⟨number, unitName, -, hsplit, hletters, hunit, -⟩ := exists_parts h
  obtain ⟨ht, hne, hnumber⟩ := splitNumber?_chars hsplit
  rw [ht]
  refine ⟨by simp [hne], fun c hc => (List.mem_append.mp hc).elim (fun hc => ?_) fun hc => ?_⟩
  · exact isFigure_of_isNumberChar (hnumber c hc)
  · rcases hunit with ⟨rfl, -⟩ | hu
    · cases hc
    · exact l.unit.figures_of_lookup? hletters hu c hc

theorem Percentage.figures_of_read {t : Text} {p : Percentage} (h : read t = .ok p) :
    t.trim ≠ [] ∧ ∀ c ∈ t.trim, isFigure c = true := by
  unfold read at h
  split at h
  · next number hsplit =>
    obtain ⟨ht, hne, hnumber⟩ := splitNumber?_chars hsplit
    rw [ht]
    refine ⟨by simp, fun c hc => (List.mem_append.mp hc).elim
      (fun hc => isFigure_of_isNumberChar (hnumber c hc)) fun hc => ?_⟩
    exact List.mem_singleton.mp hc ▸ by decide
  · cases h

/-! ## Calculations -/

namespace CalcExpression

theorem splitUnit_append (t : Text) : (splitUnit t).1 ++ (splitUnit t).2 = t := by
  unfold splitUnit
  split
  · rfl
  · exact List.takeWhile_append_dropWhile

theorem splitUnit_name (t : Text) :
    (splitUnit t).1 = ['%'] ∨ (splitUnit t).1.all Text.isLetter = true := by
  unfold splitUnit
  split
  · exact .inl rfl
  · exact .inr List.all_takeWhile

/-- The number of an operand is a literal, with its exponent or without. -/
theorem exists_literal_of_mem_operands {t rest : Text} {o : Operand}
    (h : (o, rest) ∈ operands t) : ∃ l : Literal, l.text = o.number := by
  unfold operands at h
  split at h
  · cases h
  · next m tail hm =>
    obtain ⟨l, hnone, hl, -⟩ := Literal.exists_of_splitMantissa? hm
    obtain ⟨x, hx⟩ := Literal.exists_of_splitExponent tail
    have hshort : l.text = m := (Literal.text_of_exponent_none hnone).trans hl
    have hlong : Literal.text ⟨l.whole, l.fraction, x, l.ne_nil, l.isDigit⟩
        = m ++ (splitExponent Text.isDigit tail).1 := by
      rw [← hl, ← hx]
      rfl
    dsimp only at h
    split at h
    · cases List.mem_singleton.mp h
      exact ⟨_, hlong⟩
    · rcases List.mem_cons.mp h with h | h
      · cases h
        exact ⟨_, hlong⟩
      · cases List.mem_singleton.mp h
        exact ⟨l, hshort⟩

/-- Every way to take a term off a text. -/
theorem of_mem_operands {t rest : Text} {o : Operand} (h : (o, rest) ∈ operands t) :
    t = o.number ++ o.unitName ++ rest
      ∧ (o.unitName = ['%'] ∨ o.unitName.all Text.isLetter = true) := by
  unfold operands at h
  split at h
  · cases h
  · next m tail hm =>
    obtain ⟨-, -, -, ht⟩ := Literal.exists_of_splitMantissa? hm
    have hlong : t = m ++ (splitExponent Text.isDigit tail).1
        ++ (splitUnit (splitExponent Text.isDigit tail).2).1
        ++ (splitUnit (splitExponent Text.isDigit tail).2).2 := by
      rw [List.append_assoc, splitUnit_append, List.append_assoc, splitExponent_append, ht]
    have hshort : t = m ++ (splitUnit tail).1 ++ (splitUnit tail).2 := by
      rw [List.append_assoc, splitUnit_append, ht]
    dsimp only at h
    split at h
    · cases List.mem_singleton.mp h
      exact ⟨hlong, splitUnit_name _⟩
    · rcases List.mem_cons.mp h with h | h
      · cases h
        exact ⟨hlong, splitUnit_name _⟩
      · cases List.mem_singleton.mp h
        exact ⟨hshort, splitUnit_name _⟩

/-- An operand whose unit is known is made of figures. -/
theorem figures_of_mem_operands {t rest : Text} {o : Operand} {u : TermUnit}
    (h : (o, rest) ∈ operands t) (hu : o.unit? = some u) :
    ∀ c ∈ o.number ++ o.unitName, isFigure c = true := by
  obtain ⟨l, hl⟩ := exists_literal_of_mem_operands h
  have hwritten := (TermUnit.unit?_eq_some_iff (of_mem_operands h).2).mp hu
  intro c hc
  rcases List.mem_append.mp hc with hc | hc
  · rw [← hl] at hc
    exact isFigure_of_isNumberChar (l.isNumberChar_of_mem_text hc)
  · exact hwritten.figures c hc

theorem splitOperator?_figures {t rest : Text} {o : CalcOperator}
    (h : splitOperator? t = some (o, rest)) :
    ∀ c ∈ t, isFigure c = true ∨ Text.isBlank c = true ∨ c ∈ rest := by
  have hsplit : ∃ sign more, t.dropWhile Text.isBlank = sign :: more ∧ isFigure sign = true
      ∧ more.dropWhile Text.isBlank = rest := by
    unfold splitOperator? at h
    split at h
    · next more hmore => cases h; exact ⟨'+', more, hmore, by decide, rfl⟩
    · next more hmore => cases h; exact ⟨'-', more, hmore, by decide, rfl⟩
    · cases h
  obtain ⟨sign, more, hdrop, hsign, rfl⟩ := hsplit
  have hblank (c : Char) (h : Text.isBlank c = true) : isFigure c = true ∨ Text.isBlank c = true
      ∨ c ∈ more.dropWhile Text.isBlank := .inr (.inl h)
  refine Text.forall_of_dropWhile hblank ?_
  rw [hdrop]
  refine List.forall_mem_cons.mpr ⟨.inl hsign, ?_⟩
  exact Text.forall_of_dropWhile hblank fun c hc => .inr (.inr hc)

theorem exists_lastOperand {t : Text} {o : Operand} (h : lastOperand? t = some o) :
    ∃ rest, (o, rest) ∈ operands t ∧ ∀ c ∈ rest, Text.isBlank c = true := by
  obtain ⟨⟨_, rest⟩, hfind, rfl⟩ := Option.map_eq_some_iff.mp h
  refine ⟨rest, List.mem_of_find?_eq_some hfind, ?_⟩
  have hend := List.find?_some hfind
  simp only [atEnd, Bool.or_eq_true, decide_eq_true_eq] at hend
  rcases hend with rfl | rfl
  · exact List.forall_mem_nil _
  · exact fun c hc => List.mem_singleton.mp hc ▸ by decide

/-- The body of a calculation that was read has figures and blanks only. -/
theorem figures_of_ofSource {s : CalcSource} {e : CalcExpression} (h : ofSource s = .ok e) :
    ∀ c ∈ s.content, isFigure c = true ∨ Text.isBlank c = true := by
  unfold ofSource at h
  split at h
  · cases h
  next left operator right hsplit =>
  split at h
  · split at h
    · next u v hu hv =>
      obtain ⟨⟨_, rest⟩, hleft, hbind⟩ := List.exists_of_findSome?_eq_some hsplit
      obtain ⟨⟨_, tail⟩, hoperator, hmap⟩ := Option.bind_eq_some_iff.mp hbind
      obtain ⟨_, hright, heq⟩ := Option.map_eq_some_iff.mp hmap
      cases heq
      obtain ⟨hcontent, -⟩ := of_mem_operands hleft
      obtain ⟨last, hmem, hlast⟩ := exists_lastOperand hright
      obtain ⟨htail, -⟩ := of_mem_operands hmem
      intro c hc
      rw [hcontent] at hc
      rcases List.mem_append.mp hc with hc | hc
      · exact .inl (figures_of_mem_operands hleft hu c hc)
      rcases splitOperator?_figures hoperator c hc with hfigure | hblank | hc
      · exact .inl hfigure
      · exact .inr hblank
      rw [htail] at hc
      rcases List.mem_append.mp hc with hc | hc
      · exact .inl (figures_of_mem_operands hmem hv c hc)
      · exact .inr (hlast c hc)
    · cases h
  · cases h

end CalcExpression

namespace CalcSource

/-- The body of a calculation and what stands around it. -/
theorem body?_eq_some {t body : Text} (h : body? t = some body) :
    t.trim = opening ++ body ++ [')'] ∧ Text.isBlankText body = false := by
  unfold body? at h
  dsimp only at h
  split at h
  · next hshape =>
    obtain ⟨hfront, hsuffix⟩ := Bool.and_eq_true_iff.mp hshape
    obtain ⟨r, hr⟩ := List.isPrefixOf_iff_prefix.mp hfront
    obtain ⟨q, hq⟩ := List.isSuffixOf_iff_suffix.mp hsuffix
    split at h
    · cases h
    · next hblank =>
      cases h
      refine ⟨?_, by simpa using hblank⟩
      have hlast : r.getLast? = some ')' := by
        have hends : (opening ++ r).getLast? = some ')' := by rw [hr, ← hq]; simp
        rw [List.getLast?_append] at hends
        cases hlast : r.getLast? with
        | none => rw [hlast] at hends; exact absurd hends (by decide)
        | some d => rwa [hlast] at hends
      rw [← hr, List.drop_left, List.append_assoc, List.dropLast_append_getLast? _ hlast]
  · cases h

theorem body?_of_trim {t body : Text} (h : t.trim = opening ++ body ++ [')'])
    (hne : Text.isBlankText body = false) : body? t = some body := by
  have hfront : opening.isPrefixOf t.trim = true := by simp [h, List.append_assoc]
  have hsuffix : [')'].isSuffixOf t.trim = true :=
    List.isSuffixOf_iff_suffix.mpr (h ▸ List.suffix_append _ _)
  have hbody : (t.trim.drop opening.length).dropLast = body := by
    rw [h, List.append_assoc, List.drop_left, List.dropLast_concat]
  unfold body?
  simp only [hfront, hsuffix, hbody, hne, Bool.and_self, if_true, Bool.false_eq_true, if_false]

end CalcSource

theorem CalcExpression.spelled_of_read {t : Text} {e : CalcExpression} (h : read t = .ok e) :
    Spelled t.trim := by
  unfold read at h
  split at h
  · cases h
  · next s hs =>
    obtain ⟨body, hbody, rfl⟩ := Option.map_eq_some_iff.mp hs
    obtain ⟨ht, hne⟩ := CalcSource.body?_eq_some hbody
    rw [ht]
    refine .calculation hne fun c hc => ?_
    rcases Text.mem_join_words hc with hblank | hmem
    · exact .inr hblank
    · exact figures_of_ofSource h c hmem

/-! ## Values that resolve -/

namespace Resolver

variable {c : Context} {s t : Text}

theorem exists_calculation {n : Number} (h : calculation c t = .ok n) :
    ∃ e, CalcExpression.read t = .ok e ∧ finite t (e.evaluate c) = .ok n := by
  unfold calculation at h
  split at h
  · cases h
  · next e he => exact ⟨e, he, h⟩

/-- A value in pixels is a calculation or a length. -/
theorem exists_of_pixels {n : Number} (h : pixels c t = .ok n) :
    (CalcSource.isValid t.trim = true ∧ calculation c t.trim = .ok n)
    ∨ (CalcSource.isValid t.trim = false
      ∧ ∃ l, Length.read t.trim = .ok l ∧ finite t (l.toPixels c) = .ok n) := by
  unfold pixels at h
  dsimp only at h
  split at h
  · next hvalid => exact .inl ⟨hvalid, h⟩
  · next hvalid =>
    split at h
    · cases h
    · cases h
    · next l hl => exact .inr ⟨by simpa using hvalid, l, hl, h⟩

/-- A size is a calculation, a percentage or a length. -/
theorem exists_of_size {r : Size} (h : size c t = .ok r) :
    (CalcSource.isValid t.trim = true ∧ calcSize c t t.trim = .ok r)
    ∨ (CalcSource.isValid t.trim = false ∧ ['%'].isSuffixOf t.trim = true
      ∧ ∃ p, Percentage.read t.trim = .ok p ∧ r = .percentage p)
    ∨ (CalcSource.isValid t.trim = false ∧ ['%'].isSuffixOf t.trim = false
      ∧ isNonNumericKeyword t.trim = false
      ∧ ∃ l, Length.read t.trim = .ok l ∧ (finite t (l.toPixels c)).map .pixels = .ok r) := by
  unfold size at h
  dsimp only at h
  split at h
  · cases h
  split at h
  · next hvalid => exact .inl ⟨hvalid, h⟩
  next hvalid =>
  have hvalid : CalcSource.isValid t.trim = false := by simpa using hvalid
  split at h
  · next hpercent =>
    split at h
    · cases h
    · next p hp => cases h; exact .inr (.inl ⟨hvalid, hpercent, p, hp, rfl⟩)
  next hpercent =>
  split at h
  · cases h
  next hkeyword =>
  split at h
  · cases h
  · cases h
  · next l hl =>
    exact .inr (.inr ⟨hvalid, Bool.eq_false_iff.mpr hpercent, Bool.eq_false_iff.mpr hkeyword, l, hl, h⟩)

theorem spelled_of_pixels {n : Number} (h : pixels c t = .ok n) : Spelled t.trim := by
  rcases exists_of_pixels h with ⟨-, hcalc⟩ | ⟨-, l, hl, -⟩
  · obtain ⟨e, he, -⟩ := exists_calculation hcalc
    exact Text.trim_trim ▸ CalcExpression.spelled_of_read he
  · obtain ⟨hne, hfigures⟩ := Length.figures_of_read hl
    rw [Text.trim_trim] at hne hfigures
    exact .figures hne hfigures

theorem spelled_of_size {r : Size} (h : size c t = .ok r) : Spelled t.trim := by
  rcases exists_of_size h with ⟨-, hcalc⟩ | ⟨-, -, p, hp, -⟩ | ⟨-, -, -, l, hl, -⟩
  · unfold calcSize at hcalc
    split at hcalc
    · cases hcalc
    · next e he => exact Text.trim_trim ▸ CalcExpression.spelled_of_read he
  · obtain ⟨hne, hfigures⟩ := Percentage.figures_of_read hp
    rw [Text.trim_trim] at hne hfigures
    exact .figures hne hfigures
  · obtain ⟨hne, hfigures⟩ := Length.figures_of_read hl
    rw [Text.trim_trim] at hne hfigures
    exact .figures hne hfigures

end Resolver

/-- What resolves to pixels does not end in a percent sign. -/
theorem Resolver.not_percent_of_pixels {c : Context} {t : Text} {n : Number}
    (h : pixels c t = .ok n) : ['%'].isSuffixOf t.trim = false := by
  rw [Bool.eq_false_iff, Ne, List.isSuffixOf_iff_suffix]
  rintro ⟨q, hq⟩
  rcases exists_of_pixels h with ⟨hvalid, -⟩ | ⟨-, l, hl, -⟩
  · obtain ⟨body, hbody⟩ := Option.isSome_iff_exists.mp hvalid
    have hshape := (CalcSource.body?_eq_some hbody).1
    rw [Text.trim_trim, ← hq] at hshape
    have hlast := congrArg List.getLast? hshape
    simp at hlast
  · obtain ⟨number, unitName, -, hsplit, hletters, -⟩ := Length.exists_parts hl
    obtain ⟨ht, -, hnumber⟩ := splitNumber?_chars hsplit
    rw [Text.trim_trim, ← hq] at ht
    have hmem : '%' ∈ number ++ unitName := ht ▸ List.mem_append_right q List.mem_cons_self
    rcases List.mem_append.mp hmem with hmem | hmem
    · exact absurd (hnumber '%' hmem) (by decide)
    · exact absurd (List.all_eq_true.mp hletters '%' hmem) (by decide)

theorem Percentage.spelled_of_read {t : Text} {p : Percentage} (h : read t = .ok p) :
    Spelled t.trim :=
  .figures (figures_of_read h).1 (figures_of_read h).2

end CssValues
