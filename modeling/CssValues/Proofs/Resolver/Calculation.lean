import CssValues.Proofs.Resolver.Length

/-!
# Calculations and their terms

A calculation of two quantities comes to the sum or the difference of what the quantities come to on
their own, whatever blanks stand around the operator and inside the parentheses. The blanks are
normalized before a calculation is read: single spaces stay where there were blanks at all
(`Text.join_words_append`), and either way the body is one of the grammar. Main result:
`Resolver.pixels_calc`.
-/

namespace CssValues

/-! ## Words and blanks -/

namespace Text

variable {s t : Text}

def IsWord (s : Text) : Prop := s ≠ [] ∧ ∀ c ∈ s, isBlank c = false

/-- What is left of blanks when the words around them are put together again. -/
def Blanks.gap (w : Blanks) : Blanks := if w.val = [] then .none else .space

theorem words_blanks_append (w : Blanks) (t : Text) : words (w.val ++ t) = words t := by
  obtain ⟨w, hw⟩ := w
  induction w with
  | nil => rfl
  | cons b w ih =>
    rw [words, List.cons_append, splitWhere, if_pos (hw b List.mem_cons_self)]
    exact ih fun d hd => hw d (List.mem_cons_of_mem _ hd)

theorem words_append_blanks (hs : IsWord s) (w : Blanks) : words (s ++ w.val) = [s] := by
  obtain ⟨hne, hs⟩ := hs
  obtain ⟨w, hw⟩ := w
  cases w with
  | nil =>
    rw [List.append_nil, words, splitWhere_of_none hs, List.filter_cons_of_pos (by simp [hne])]
    rfl
  | cons b w =>
    rw [words_append hs hne (hw b List.mem_cons_self), words_of_blank]
    exact List.all_eq_true.mpr fun d hd => hw d (List.mem_cons_of_mem _ hd)

theorem splitWhere_append_right {p : Char → Bool} {part : Text} {parts : List Text}
    (hs : ∀ c ∈ s, p c = false) (h : splitWhere p t = part :: parts) :
    splitWhere p (s ++ t) = (s ++ part) :: parts := by
  induction s with
  | nil => exact h
  | cons c s ih =>
    rw [List.cons_append, splitWhere, if_neg (by simp [hs c List.mem_cons_self]),
      ih fun d hd => hs d (List.mem_cons_of_mem _ hd)]
    rfl

/-- A text with a word at its front is divided alike, whether empty parts are kept or not. -/
theorem exists_words_append (ht : IsWord t) (rest : Text) : ∃ part parts,
    splitWhere isBlank (t ++ rest) = part :: parts
      ∧ words (t ++ rest) = part :: parts.filter (fun w => !w.isEmpty) := by
  obtain ⟨hne, ht⟩ := ht
  obtain ⟨first, parts, hrest⟩ := List.exists_cons_of_ne_nil (splitWhere_ne_nil isBlank rest)
  have hsplit := splitWhere_append_right ht hrest
  refine ⟨t ++ first, parts, hsplit, ?_⟩
  rw [words, hsplit, List.filter_cons_of_pos (by simp [hne])]

theorem join_append (separator u : Text) (ws : List Text) :
    join separator ((s ++ u) :: ws) = s ++ join separator (u :: ws) := by
  cases ws with
  | nil => rfl
  | cons v ws => simp [join]

/-- Blanks between two words become a space. -/
theorem join_words_append (hs : IsWord s) (w : Blanks) (ht : IsWord t) (rest : Text) :
    join [' '] (words (s ++ w.val ++ (t ++ rest)))
      = s ++ w.gap.val ++ join [' '] (words (t ++ rest)) := by
  obtain ⟨part, parts, hsplit, hwords⟩ := exists_words_append ht rest
  obtain ⟨hne, hs⟩ := hs
  obtain ⟨w, hw⟩ := w
  cases w with
  | nil =>
    have happend : words (s ++ (t ++ rest))
        = (s ++ part) :: parts.filter (fun w => !w.isEmpty) := by
      rw [words, splitWhere_append_right hs hsplit, List.filter_cons_of_pos (by simp [hne])]
    rw [List.append_nil, happend, hwords, join_append]
    simp [Blanks.gap, Blanks.none]
  | cons b w =>
    rw [List.append_assoc, List.cons_append, words_append hs hne (hw b List.mem_cons_self),
      words_blanks_append ⟨w, fun d hd => hw d (List.mem_cons_of_mem _ hd)⟩, hwords]
    rfl

end Text

/-! ## Bodies with any blanks -/

theorem Quantity.isWord_text (q : Quantity) : q.text.IsWord := by
  obtain ⟨c, t, htext, -⟩ := q.exists_text_cons
  exact ⟨by simp [htext], fun _ => q.isBlank_of_mem_text⟩

theorem CalcOperator.isWord_symbol (o : CalcOperator) : o.symbol.IsWord := by
  cases o <;> exact ⟨by decide, by decide⟩

namespace CalcBody

variable {t : Text}

/-- The body of two terms with blanks around the operator, once the blanks are normalized. -/
def spaced (p : Quantity) (w : Text.Blanks) (o : CalcOperator) (v : Text.Blanks) (q : Quantity) :
    CalcBody :=
  ⟨p, w.gap, o, v.gap, q⟩

theorem isWritten_spaced {p q : Quantity} {o : CalcOperator} {w₁ w₂ w₃ w₄ : Text.Blanks}
    (h : t.trim = CalcSource.opening
      ++ (w₁.val ++ p.text ++ w₂.val ++ o.symbol ++ w₃.val ++ q.text ++ w₄.val) ++ [')']) :
    (spaced p w₂ o w₃ q).IsWritten t := by
  refine ⟨_, h, ?_⟩
  have hassoc : w₁.val ++ p.text ++ w₂.val ++ o.symbol ++ w₃.val ++ q.text ++ w₄.val
      = w₁.val ++ (p.text ++ w₂.val ++ (o.symbol ++ (w₃.val ++ (q.text ++ w₄.val)))) := by
    simp only [List.append_assoc]
  have hright : Text.join [' '] (Text.words (o.symbol ++ w₃.val ++ (q.text ++ w₄.val)))
      = o.symbol ++ w₃.gap.val ++ q.text := by
    rw [Text.join_words_append o.isWord_symbol w₃ q.isWord_text,
      Text.words_append_blanks q.isWord_text]
    rfl
  rw [hassoc, Text.words_blanks_append, Text.join_words_append p.isWord_text w₂ o.isWord_symbol,
    ← List.append_assoc o.symbol, hright]
  simp only [text, operatorText, spaced, List.append_assoc]

end CalcBody

/-! ## Terms -/

namespace Resolver

/-- What a quantity counts in pixels: a length what it comes to alone, a percentage nothing. -/
inductive Counts (c : Context) (q : Quantity) : Number → Prop where
  | length {u : LengthUnit} {a : Number} (hunit : q.unit = .length u)
    (h : pixels c q.text = .ok a) : Counts c q a
  | percentage {r : Percentage} (h : Percentage.read q.text = .ok r) : Counts c q 0

variable {c : Context} {p q : Quantity} {a b : Number} {t : Text}

theorem of_finite_eq_ok {r : Except Fault Number} {n : Number} (h : finite t r = .ok n) :
    r = .ok n := by
  unfold finite at h
  split at h
  · cases h
  · split at h
    · cases h
    · exact congrArg _ (Except.ok.inj h)
    · cases h

/-- The number of a quantity that counts has a double, and as a term it is the same in pixels. -/
theorem Counts.exists_term (h : Counts c q a) : ∃ x : Binary64,
    Binary64.readFinite? q.literal.text = some x ∧ Term.toPixels ⟨.double x, q.unit⟩ c = .ok a
      ∧ a.IsMeasured := by
  have hq : q.IsWritten .absent q.text := q.isWritten_signed_text .absent
  cases h with
  | length hunit hpixels =>
    obtain ⟨hvalid, -⟩ | ⟨-, l, hl, hfinite⟩ := exists_of_pixels hpixels
    · rw [isValid_trim, hq.isValid_eq_false] at hvalid
      cases hvalid
    rw [Length.read_trim] at hl
    have htoPixels := of_finite_eq_ok hfinite
    obtain ⟨s, q', x, y, hq', hunit', hx, hvalue, -⟩ := Length.read_eq_ok_iff.mp hl
    obtain ⟨rfl, rfl⟩ := hq.unique hq'
    obtain ⟨value, u, hvalueFinite⟩ := l
    obtain rfl : value = .double x := hvalue
    obtain ⟨scale, -, -, hscale⟩ := u.exists_scale c
    have ha : a = .double (scale.apply x) := by
      simpa [Length.toPixels, hscale] using htoPixels.symm
    refine ⟨x, hx, ?_, ha ▸ .double _⟩
    rw [show q.unit = .length u from hunit']
    exact htoPixels
  | percentage hread =>
    obtain ⟨s, q', x, hq', hunit, hx, -⟩ := Percentage.read_eq_ok_iff.mp hread
    obtain ⟨rfl, rfl⟩ := hq.unique hq'
    exact ⟨x, hx, by rw [hunit]; rfl, .zero⟩

/-- A calculation that is read comes to its pixels, if they are finite, but as a size to the
percentage that a length is taken from. -/
theorem toOption_of_read {e : CalcExpression} {n : Number} {fin : Bool}
    (hread : CalcExpression.read t = .ok e) (hn : e.evaluate c = .ok n)
    (hfin : n.isFinite = .ok fin) : (pixels c t).toOption = (if fin then some n else none)
      ∧ (size c t).toOption = if e.isPercentageMinusPixels
          then some (.percentage (.clamp e.left.value))
          else if fin then some (.pixels n) else none := by
  have hvalid := CalcExpression.isValid_of_read hread
  have hfinite : (finite t (e.evaluate c)).toOption = if fin then some n else none := by
    rw [hn, toOption_finite hfin]
  constructor
  · rw [toOption_pixels_of_valid hvalid, toOption_calculation, hread, ← hfinite]
    rfl
  · rw [toOption_size_of_valid hvalid, hread]
    show (if _ then _ else (finite t (e.evaluate c)).toOption.map Size.pixels) = _
    rw [hfinite]
    cases fin <;> rfl

/-- **Calculations.** Two quantities with an operator between them, with any blanks around the
operator and inside the parentheses, come to the sum or the difference of what they count alone, if
that is finite. As a size, a percentage less a length is the percentage. -/
theorem pixels_calc (c : Context) (o : CalcOperator) (w₁ w₂ w₃ w₄ : Text.Blanks)
    (hp : Counts c p a) (hq : Counts c q b) (ht : t.trim = CalcSource.opening
      ++ (w₁.val ++ p.text ++ w₂.val ++ o.symbol ++ w₃.val ++ q.text ++ w₄.val) ++ [')']) :
    ∃ (n : Number) (fin : Bool), o.apply a b = .ok n ∧ n.isFinite = .ok fin
      ∧ (attempt (pixels c t)).result = .ok (if fin then some n else none)
      ∧ (¬(p.unit = .percent ∧ o = .minus ∧ q.unit ≠ .percent) →
        (attempt (size c t)).result = .ok (if fin then some (.pixels n) else none))
      ∧ (p.unit = .percent → o = .minus → q.unit ≠ .percent → ∃ r, Percentage.read p.text = .ok r
        ∧ (attempt (size c t)).result = .ok (some (.percentage r))) := by
  obtain ⟨x, hx, hleft, hameasured⟩ := hp.exists_term
  obtain ⟨y, hy, hright, hbmeasured⟩ := hq.exists_term
  obtain ⟨n, hn, hmeasured⟩ := o.exists_apply hameasured hbmeasured
  obtain ⟨fin, hfin⟩ := hmeasured.exists_isFinite
  let e := CalcExpression.ofBody (CalcBody.spaced p w₂ o w₃ q) x y
  have hread : CalcExpression.read t = .ok e :=
    CalcExpression.read_eq_ok_iff.mpr ⟨_, x, y, CalcBody.isWritten_spaced ht, hx, hy, rfl⟩
  have hevaluate : e.evaluate c = .ok n := by
    rw [CalcExpression.evaluate, show e.left.toPixels c = .ok a from hleft,
      show e.right.toPixels c = .ok b from hright]
    exact hn
  have hshare : e.isPercentageMinusPixels = true
      ↔ p.unit = .percent ∧ o = .minus ∧ ∃ u, q.unit = .length u :=
    CalcExpression.isPercentageMinusPixels_iff
  obtain ⟨hpixels, hsize⟩ := toOption_of_read hread hevaluate hfin
  refine ⟨n, fin, hn, hfin, ?_, fun hnot => ?_, fun hpercent hminus hlength => ?_⟩
  · rw [(answers_pixels c t).result_attempt, hpixels]
  · have hnone : ¬e.isPercentageMinusPixels = true := by
      rw [hshare]
      rintro ⟨hpercent, hminus, u, hu⟩
      exact hnot ⟨hpercent, hminus, fun hq => by cases hu.symm.trans hq⟩
    rw [(answers_size c t).result_attempt, hsize, if_neg hnone]
  · obtain ⟨u, hu⟩ : ∃ u, q.unit = .length u := by
      cases hunit : q.unit with
      | percent => exact absurd hunit hlength
      | length u => exact ⟨u, rfl⟩
    refine ⟨.clamp (.double x), Percentage.read_eq_ok_iff.mpr
      ⟨.absent, p, x, p.isWritten_signed_text .absent, hpercent, hx, rfl⟩, ?_⟩
    rw [(answers_size c t).result_attempt, hsize, if_pos (hshare.mpr ⟨hpercent, hminus, u, hu⟩)]
    rfl

/-- An exponent in front of the sign, and one behind it. -/
theorem pixels_calc_exponents : (∃ a b n : Number, pixels .default "1e1px".toList = .ok a
      ∧ pixels .default "5E-1em".toList = .ok b ∧ CalcOperator.plus.apply a b = .ok n
      ∧ (attempt (pixels .default "calc(1e1px+5E-1em )".toList)).result = .ok (some n))
    ∧ ∃ r, Percentage.read "50%".toList = .ok r
      ∧ (attempt (size .default "calc( 50%-5E-1em)".toList)).result
        = .ok (some (.percentage r)) := by
  let half : Exponent := ⟨'E', .minus, ['1'], rfl, by decide, by decide⟩
  let left : Quantity := ⟨⟨['1'], none, some ⟨'e', .absent, ['1'], rfl, by decide, by decide⟩,
    by decide, by decide⟩, ['p', 'x'], .length .px, .inr (by decide)⟩
  let right : Quantity := ⟨⟨['5'], none, some half, by decide, by decide⟩, ['e', 'm'],
    .length .em, .inr (by decide)⟩
  let share : Quantity := ⟨⟨['5', '0'], none, none, by decide, by decide⟩, ['%'], .percent,
    .inr (by decide)⟩
  obtain ⟨a, ha⟩ := exists_of_isOk (r := pixels .default left.text) (by decide +kernel)
  obtain ⟨b, hb⟩ := exists_of_isOk (r := pixels .default right.text) (by decide +kernel)
  obtain ⟨r, hr⟩ := exists_of_isOk (r := Percentage.read share.text) (by decide +kernel)
  have hright : Counts .default right b := .length rfl hb
  constructor
  · obtain ⟨n, fin, hn, -, hpixels, -⟩ := pixels_calc .default .plus .none .none .none .space
      (t := "calc(1e1px+5E-1em )".toList) (.length (q := left) rfl ha) hright (by decide +kernel)
    refine ⟨a, b, n, ha, hb, hn, ?_⟩
    have hsome : (pixels .default "calc(1e1px+5E-1em )".toList).toOption.isSome = true := by
      decide +kernel
    rw [hpixels]
    rw [(answers_pixels _ _).result_attempt, Except.ok.injEq] at hpixels
    rw [hpixels] at hsome
    cases fin with
    | true => rfl
    | false => cases hsome
  · obtain ⟨_, _, _, _, -, -, hsize⟩ := pixels_calc .default .minus .space .none .none .none
      (t := "calc( 50%-5E-1em)".toList) (.percentage (q := share) hr) hright (by decide +kernel)
    exact hsize rfl rfl (by decide)

end Resolver

end CssValues
