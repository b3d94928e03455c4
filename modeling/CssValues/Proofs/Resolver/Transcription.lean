import CssValues.Proofs.Resolver.Agreement
import CssValues.Proofs.Spelling
import CssValues.Proofs.Text.Folding

/-!
# Values in another transcription

A value that is transcribed reads as the same length, percentage or calculation and resolves to the same
size, as long as the `calc` in front of a calculation is left as it is
(`Resolver.result_size_map`). What the transcription makes a calculation does not resolve before
(`Resolver.result_size_of_made`).
-/

namespace CssValues

open Text (IsTranscription mapBoth)

/-! ## Units -/

section

variable {f : Char → Char} (hf : IsTranscription f)

include hf

theorem LengthUnit.lookup?_map (t : Text) : lookup? (t.map f) = lookup? t := by
  have hnames : ∀ u : LengthUnit, (∀ d ∈ u.name, d.toNat < 0x80 ∧ Text.isLetter d = true)
      ∧ 'k' ∉ u.name := by
    intro u
    cases u <;> decide
  have hname : ∀ u : LengthUnit, u.name = Text.lower (t.map f) ↔ u.name = Text.lower t := by
    intro u
    obtain ⟨hletters, hk⟩ := hnames u
    have hascii : ∀ d ∈ u.name, d.toNat < 0x80 := fun d hd => (hletters d hd).1
    rw [eq_comm, Text.lower_eq_iff_asciiLower hascii hk,
      hf.asciiLower_eq_iff fun d hd => .inl (hletters d hd).2,
      ← Text.lower_eq_iff_asciiLower hascii hk, eq_comm]
  simp only [lookup?, hname]

theorem CalcExpression.Operand.unit?_map (number name : Text) :
    (Operand.mk (number.map f) (name.map f)).unit? = (Operand.mk number name).unit? := by
  have hascii : ∀ d ∈ ['%'], d.toNat < 0x80 := by decide
  have hpercent : Text.lower (name.map f) = ['%'] ↔ Text.lower name = ['%'] := by
    rw [Text.lower_eq_iff_asciiLower hascii (by decide), hf.asciiLower_eq_iff (by decide),
      Text.lower_eq_iff_asciiLower hascii (by decide)]
  simp only [unit?, List.isEmpty_map, TermUnit.lookup?, hpercent, LengthUnit.lookup?_map hf]

/-! ## Lengths and percentages -/

theorem Length.read_map (t : Text) : read (t.map f) = read t := by
  unfold read
  dsimp only
  rw [hf.trim_map, List.isEmpty_map, hf.isNonNumericKeyword_map, hf.splitNumber?_map]
  split
  · rfl
  split
  · rfl
  cases splitNumber? t.trim with
  | none => rfl
  | some parts =>
    obtain ⟨number, unitName⟩ := parts
    have hnumber := hf.readFinite?_map number
    simp only [Option.map_some, mapBoth, Text.all_map hf.letter, List.isEmpty_map,
      LengthUnit.lookup?_map hf]
    split
    · split
      · next hnone =>
        symm
        split
        · rfl
        · next x hx => rw [← hnumber, hnone] at hx; cases hx
      · next x hx =>
        symm
        split
        · next hnone => rw [← hnumber, hx] at hnone; cases hnone
        · next y hy =>
          rw [← hnumber, hx] at hy
          cases hy
          rfl
    · rfl

theorem Percentage.read_map (t : Text) : read (t.map f) = read t := by
  unfold read
  rw [hf.trim_map, hf.splitNumber?_map]
  cases splitNumber? t.trim with
  | none => rfl
  | some parts =>
    obtain ⟨number, rest⟩ := parts
    by_cases hpercent : rest = ['%']
    · subst hpercent
      simp only [Option.map_some, mapBoth, List.map_cons, List.map_nil,
        hf.apply_mark (d := '%') (by decide), hf.readFinite?_map]
    · have hmapped : rest.map f ≠ ['%'] := fun h => by
        obtain ⟨c, rfl, hc⟩ := List.map_eq_singleton_iff.mp h
        exact hpercent (congrArg (fun c => [c]) ((hf.mark c '%' (by decide)).mp hc))
      rw [Option.map_some, mapBoth]
      split
      · next heq => exact absurd (Prod.mk.inj (Option.some.inj heq)).2 hmapped
      · split
        · next heq => exact absurd (Prod.mk.inj (Option.some.inj heq)).2 hpercent
        · rfl

/-! ## Calculations -/

namespace CalcExpression

theorem splitUnit_map (t : Text) : splitUnit (t.map f) = mapBoth f (splitUnit t) := by
  have hother : ∀ (c : Char) (t : Text), c ≠ '%' → splitUnit (c :: t)
      = ((c :: t).takeWhile Text.isLetter, (c :: t).dropWhile Text.isLetter) := by
    intro c t hc
    unfold splitUnit
    split
    · next heq => exact absurd (List.cons.inj heq).1 hc
    · rfl
  cases t with
  | nil => rfl
  | cons c t =>
    by_cases hpercent : c = '%'
    · subst hpercent
      simp only [List.map_cons, hf.apply_mark (d := '%') (by decide), splitUnit, mapBoth, List.map_nil]
    · have hmapped : f c ≠ '%' := mt (hf.mark c '%' (by decide)).mp hpercent
      rw [hother c t hpercent, List.map_cons, hother _ _ hmapped, ← List.map_cons,
        Text.takeWhile_map hf.letter, Text.dropWhile_map hf.letter, mapBoth]

/-- An operand transcribed. -/
def Operand.map (f : Char → Char) (o : Operand) : Operand := ⟨o.number.map f, o.unitName.map f⟩

theorem operands_map (t : Text) : operands (t.map f)
    = (operands t).map fun (o, rest) => (o.map f, rest.map f) := by
  unfold operands
  rw [hf.splitMantissa?_map]
  cases splitMantissa? t with
  | none => rfl
  | some parts =>
    obtain ⟨mantissa, rest⟩ := parts
    simp only [Option.map_some, mapBoth, hf.splitExponent_map hf.isDigit, splitUnit_map hf,
      List.isEmpty_map]
    split
    · simp only [List.map_cons, List.map_nil, Operand.map, List.map_append]
    · simp only [List.map_cons, List.map_nil, Operand.map, List.map_append]

omit hf in
theorem splitOperator?_eq_none {t rest : Text} {c : Char} (h : t.dropWhile Text.isBlank = c :: rest)
    (hplus : c ≠ '+') (hminus : c ≠ '-') : splitOperator? t = none := by
  unfold splitOperator?
  rw [h]
  split
  · next heq => exact absurd (List.cons.inj heq).1 hplus
  · next heq => exact absurd (List.cons.inj heq).1 hminus
  · rfl

theorem splitOperator?_map (t : Text) : splitOperator? (t.map f)
    = (splitOperator? t).map fun (o, rest) => (o, rest.map f) := by
  have hmap : (t.map f).dropWhile Text.isBlank = (t.dropWhile Text.isBlank).map f :=
    Text.dropWhile_map hf.blank t
  cases hdrop : t.dropWhile Text.isBlank with
  | nil =>
    rw [splitOperator?, splitOperator?, hmap, hdrop]
    rfl
  | cons c rest =>
    by_cases hplus : c = '+'
    · subst hplus
      simp only [splitOperator?, hmap, hdrop, List.map_cons, hf.apply_mark (d := '+') (by decide),
        Text.dropWhile_map hf.blank, Option.map_some]
    by_cases hminus : c = '-'
    · subst hminus
      simp only [splitOperator?, hmap, hdrop, List.map_cons, hf.apply_mark (d := '-') (by decide),
        Text.dropWhile_map hf.blank, Option.map_some]
    rw [hdrop, List.map_cons] at hmap
    rw [splitOperator?_eq_none hdrop hplus hminus, splitOperator?_eq_none hmap
      (mt (hf.mark c '+' (by decide)).mp hplus) (mt (hf.mark c '-' (by decide)).mp hminus)]
    rfl

theorem atEnd_map (t : Text) : atEnd (t.map f) = atEnd t := by
  have hbreak : t.map f = ['\n'] ↔ t = ['\n'] := by
    refine ⟨fun h => ?_, fun h => ?_⟩
    · obtain ⟨c, rfl, hc⟩ := List.map_eq_singleton_iff.mp h
      rw [(hf.mark c '\n' (by decide)).mp hc]
    · rw [h, List.map_singleton, hf.apply_mark (by decide)]
  simp only [atEnd, List.map_eq_nil_iff, hbreak]

theorem lastOperand?_map (t : Text) :
    lastOperand? (t.map f) = (lastOperand? t).map (Operand.map f) := by
  unfold lastOperand?
  rw [operands_map hf, List.find?_map, Option.map_map, Option.map_map]
  simp only [Function.comp_def, atEnd_map hf]

theorem split?_map (t : Text) : split? (t.map f)
    = (split? t).map fun (left, o, right) => (left.map f, o, right.map f) := by
  unfold split?
  rw [operands_map hf, List.findSome?_map, List.map_findSome?]
  congr 1
  funext ⟨left, rest⟩
  simp only [Function.comp_apply, splitOperator?_map hf]
  cases splitOperator? rest with
  | none => rfl
  | some parts =>
    simp only [Option.map_some, Option.bind_some, lastOperand?_map hf, Option.map_map]
    rfl

/-- The body of a calculation that is transcribed reads as the same calculation. -/
theorem toOption_ofSource_map (content : Text) :
    (ofSource ⟨content.map f⟩).toOption = (ofSource ⟨content⟩).toOption := by
  unfold ofSource
  rw [split?_map hf]
  cases split? content with
  | none => rfl
  | some parts =>
    obtain ⟨left, operator, right⟩ := parts
    have hunit : ∀ o : Operand, (o.map f).unit? = o.unit? := fun o => Operand.unit?_map hf _ _
    have hnumber : ∀ o : Operand, Binary64.readFinite? (o.map f).number
        = Binary64.readFinite? o.number := fun o => hf.readFinite?_map o.number
    simp only [Option.map_some, hunit, hnumber]
    cases Binary64.readFinite? left.number with
    | none => rfl
    | some x =>
      cases Binary64.readFinite? right.number with
      | none => rfl
      | some y =>
        cases left.unit? with
        | none => rfl
        | some u => cases right.unit? <;> rfl

end CalcExpression

/-! ### With what stands around them -/

namespace CalcSource

variable {t : Text}

/-- A calculation whose `calc` is left as it is stays one. -/
theorem isValid_map (hopening : opening.map f = opening) (h : isValid t = true) :
    isValid (t.map f) = true := by
  obtain ⟨body, hbody⟩ := Option.isSome_iff_exists.mp h
  obtain ⟨hshape, hne⟩ := body?_eq_some hbody
  have htrim : Text.trim (t.map f) = opening ++ body.map f ++ [')'] := by
    rw [hf.trim_map, hshape, List.map_append, List.map_append, hopening, List.map_singleton,
      hf.apply_mark (by decide)]
  rw [isValid, body?_of_trim htrim ((hf.isBlankText_map body).trans hne)]
  rfl

/-- What becomes one was one, if nothing else becomes `calc(`. -/
theorem isValid_of_map (hopening : ∀ w : Text, w.map f = opening → w = opening)
    (h : isValid (t.map f) = true) : isValid t = true := by
  obtain ⟨body, hbody⟩ := Option.isSome_iff_exists.mp h
  obtain ⟨hshape, hne⟩ := body?_eq_some hbody
  rw [hf.trim_map] at hshape
  obtain ⟨front, last, htrim, hfront, hlast⟩ := List.map_eq_append_iff.mp hshape
  obtain ⟨w, inner, rfl, hw, rfl⟩ := List.map_eq_append_iff.mp hfront
  obtain ⟨d, rfl, hd⟩ := List.map_eq_singleton_iff.mp hlast
  obtain rfl := hopening w hw
  obtain rfl := (hf.mark d ')' (by decide)).mp hd
  rw [isValid, body?_of_trim htrim ((hf.isBlankText_map inner).symm.trans hne)]
  rfl

/-- A calculation that stays one has its body transcribed. -/
theorem body?_map (h : isValid (t.map f) = isValid t) :
    body? (t.map f) = (body? t).map (List.map f) := by
  cases hbody : body? t with
  | none =>
    rw [isValid, isValid, hbody] at h
    exact Option.isNone_iff_eq_none.mp (Option.isSome_eq_false_iff.mp h)
  | some body =>
    obtain ⟨content, hcontent⟩ : ∃ content, body? (t.map f) = some content := by
      rw [isValid, isValid, hbody] at h
      exact Option.isSome_iff_exists.mp h
    obtain ⟨hshape, -⟩ := body?_eq_some hbody
    obtain ⟨hmapped, -⟩ := body?_eq_some hcontent
    rw [hf.trim_map, hshape, List.map_append, List.map_append] at hmapped
    obtain ⟨hfront, hlast⟩ := List.append_inj' hmapped rfl
    obtain ⟨-, heq⟩ := List.append_inj hfront (List.length_map f)
    rw [hcontent, Option.map_some, heq]

theorem ofText?_map (h : isValid (t.map f) = isValid t) :
    ofText? (t.map f) = (ofText? t).map fun s => ⟨s.content.map f⟩ := by
  unfold ofText?
  rw [body?_map hf h, Option.map_map, Option.map_map]
  congr 1
  funext body
  have hspace : [' '].map f = [' '] := congrArg (fun c => [c]) hf.space
  rw [Function.comp_apply, Function.comp_apply, hf.words_map, Text.join_map, hspace]

/-- What is made a calculation is not spelled as a value that resolves. -/
theorem not_spelled (hnone : isValid t = false) (hmade : isValid (t.map f) = true) :
    ¬Spelled t.trim := by
  obtain ⟨body, hbody⟩ := Option.isSome_iff_exists.mp hmade
  obtain ⟨hshape, -⟩ := body?_eq_some hbody
  have hlast : [')'].isSuffixOf t.trim = true := by
    rw [← hf.isSuffixOf_map (by decide), ← hf.trim_map, hshape]
    exact List.isSuffixOf_iff_suffix.mpr (List.suffix_append _ _)
  intro hspelled
  generalize htrim : t.trim = u at hspelled hlast
  cases hspelled with
  | figures hne hfigures =>
    have hparen : ')' ∈ u := List.mem_of_getLast? (Text.isSuffixOf_singleton.mp hlast)
    exact absurd (hfigures ')' hparen) (by decide)
  | calculation hne hfigures =>
    rw [isValid, body?_of_trim htrim hne] at hnone
    cases hnone

end CalcSource

theorem CalcExpression.toOption_read_map {t : Text}
    (h : CalcSource.isValid (t.map f) = CalcSource.isValid t) :
    (read (t.map f)).toOption = (read t).toOption := by
  unfold read
  rw [CalcSource.ofText?_map hf h]
  cases CalcSource.ofText? t with
  | none => rfl
  | some s => exact toOption_ofSource_map hf s.content

/-! ## Sizes -/

namespace Resolver

variable {c : Context} {t : Text}

theorem toOption_calculation_map (h : CalcSource.isValid (t.map f) = CalcSource.isValid t) :
    (calculation c (t.map f)).toOption = (calculation c t).toOption := by
  have hcongr (p : Except Fault Number) := toOption_finite_congr (t.map f) t p
  rw [toOption_calculation, toOption_calculation, CalcExpression.toOption_read_map hf h]
  simp only [hcongr]

theorem toOption_pixels_map (h : CalcSource.isValid (t.map f) = CalcSource.isValid t) :
    (pixels c (t.map f)).toOption = (pixels c t).toOption := by
  have hcongr (p : Except Fault Number) := toOption_finite_congr (t.map f) t p
  cases hvalid : CalcSource.isValid t with
  | true =>
    rw [toOption_pixels_of_valid hvalid, toOption_pixels_of_valid (h.trans hvalid),
      toOption_calculation_map hf h]
  | false =>
    rw [toOption_pixels_of_not_valid hvalid, toOption_pixels_of_not_valid (h.trans hvalid),
      Length.read_map hf]
    simp only [hcongr]

theorem toOption_size_map (h : CalcSource.isValid (t.map f) = CalcSource.isValid t) :
    (size c (t.map f)).toOption = (size c t).toOption := by
  have hcongr (p : Except Fault Number) := toOption_finite_congr (t.map f) t p
  cases hvalid : CalcSource.isValid t with
  | true =>
    rw [toOption_size_of_valid hvalid, toOption_size_of_valid (h.trans hvalid),
      CalcExpression.toOption_read_map hf h]
    simp only [hcongr]
  | false =>
    rw [toOption_size_of_not_valid hvalid, toOption_size_of_not_valid (h.trans hvalid),
      Percentage.read_map hf, toOption_pixels_map hf h]

/-- **Transcription.** A value that is transcribed resolves to the same size, if it is a calculation
just where it was one. -/
theorem result_size_map (h : CalcSource.isValid (t.map f) = CalcSource.isValid t) :
    (attempt (size c (t.map f))).result = (attempt (size c t)).result := by
  rw [(answers_size c _).result_attempt, (answers_size c t).result_attempt, toOption_size_map hf h]

/-- The same for pixels. -/
theorem result_pixels_map (h : CalcSource.isValid (t.map f) = CalcSource.isValid t) :
    (attempt (pixels c (t.map f))).result = (attempt (pixels c t)).result := by
  rw [(answers_pixels c _).result_attempt, (answers_pixels c t).result_attempt, toOption_pixels_map hf h]

/-- And for calculations. -/
theorem result_calculation_map (h : CalcSource.isValid (t.map f) = CalcSource.isValid t) :
    (attempt (calculation c (t.map f))).result = (attempt (calculation c t)).result := by
  rw [(answers_calculation c _).result_attempt, (answers_calculation c t).result_attempt,
    toOption_calculation_map hf h]

/-- What is made a calculation is no size. -/
theorem result_size_of_made (hnone : CalcSource.isValid t = false)
    (hmade : CalcSource.isValid (t.map f) = true) : (attempt (size c t)).result = .ok none :=
  (answers_size c t).attempt_eq_none fun _ h =>
    CalcSource.not_spelled hf hnone hmade (spelled_of_size h)

/-- Nor does it resolve to pixels. -/
theorem result_pixels_of_made (hnone : CalcSource.isValid t = false)
    (hmade : CalcSource.isValid (t.map f) = true) : (attempt (pixels c t)).result = .ok none :=
  (answers_pixels c t).attempt_eq_none fun _ h =>
    CalcSource.not_spelled hf hnone hmade (spelled_of_pixels h)

end Resolver

end

end CssValues
