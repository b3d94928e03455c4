import CssValues.Proofs.Conversion
import CssValues.Proofs.Number.Loose
import CssValues.Proofs.Style.Getter
import CssValues.Proofs.Style.Tidy

/-!
# Opacity

The opacity of a style is a number from zero to one or nothing. It is that of a percentage, or that of
a text which reads as a double, and so not only of number literals (`IsLoose`). Rounding to a double
and keeping the value between zero and one can change places (`Number.unitShare_of_isRounding`). Main
result: `Style.opacity_read`.
-/

namespace CssValues

/-! ## Shares of one -/

/-- A rational number kept between zero and one. -/
def clampUnit (q : Rat) : Rat := max 0 (min 1 q)

theorem clampUnit_of_nonpos {q : Rat} (h : q ≤ 0) : clampUnit q = 0 :=
  max_eq_left ((min_le_right 1 q).trans h)

theorem clampUnit_of_one_le {q : Rat} (h : 1 ≤ q) : clampUnit q = 1 := by
  rw [clampUnit, min_eq_left h]
  exact max_eq_right zero_le_one

theorem clampUnit_of_between {q : Rat} (h0 : 0 ≤ q) (h1 : q ≤ 1) : clampUnit q = q := by
  rw [clampUnit, min_eq_right h1, max_eq_right h0]

theorem clampUnit_nonneg (q : Rat) : 0 ≤ clampUnit q := le_max_left _ _

namespace Binary64

variable {x y : Binary64} {q v : Rat}

theorem isAt_ofInt_zero : (Number.double (ofInt 0)).IsAt 0 := isAt_zero_double false

theorem isAt_ofInt_one : (Number.double (ofInt 1)).IsAt 1 := isExact_one.isAt_ofRat

theorem IsRounding.isNegative_of_pos (h : IsRounding q x) (hq : 0 < q) : x.isNegative = false := by
  obtain ⟨negative, rfl, hsign⟩ := h
  cases negative with
  | false => exact isNegative_ofMagnitude false _
  | true => exact absurd hsign hq.not_ge

/-- A double without a minus sign is determined by its value. -/
theorem eq_ofMagnitude (hv : (Number.double x).IsAt v) (h : x.isNegative = false) :
    x = ofMagnitude false v := by
  obtain ⟨negative, m, e, hfits, rfl, rfl⟩ := isAt_double.mp hv
  obtain rfl : negative = false := h
  exact (ofMagnitude_exact false hfits).symm

/-- What is rounded and then kept between zero and one is the rounding of what is kept there. -/
theorem IsRounding.isAt_clampUnit (h : IsRounding q x) (hv : (Number.double x).IsAt v) :
    (Number.double (ofMagnitude false (clampUnit q))).IsAt (clampUnit v) := by
  have hzero : IsRounding 0 (ofInt 0) := isRounding_self isAt_ofInt_zero
  have hone : IsRounding 1 (ofInt 1) := isRounding_self isAt_ofInt_one
  rcases le_or_gt q 0 with hq | hpos
  · rw [clampUnit_of_nonpos hq, clampUnit_of_nonpos (h.mono hzero hv isAt_ofInt_zero hq)]
    exact isAt_ofInt_zero
  rcases le_or_gt 1 q with hq | hless
  · rw [clampUnit_of_one_le hq, clampUnit_of_one_le (hone.mono h isAt_ofInt_one hv hq)]
    exact isAt_ofInt_one
  · rw [clampUnit_of_between hpos.le hless.le, clampUnit_of_between
      (hzero.mono h isAt_ofInt_zero hv hpos.le) (h.mono hone hv isAt_ofInt_one hless.le)]
    obtain ⟨negative, rfl, hsign⟩ := h
    cases negative with
    | false => rwa [abs_of_pos hpos] at hv
    | true => exact absurd hsign hpos.not_ge

/-- The double nearest to a share of one is a share of one. -/
theorem IsNearest.between_zero_one (h : IsNearest false (clampUnit q) x) :
    ∃ w, (Number.double x).IsAt w ∧ 0 ≤ w ∧ w ≤ 1 := by
  have hnonneg := clampUnit_nonneg q
  have hrounding : IsRounding (clampUnit q) x :=
    ⟨false, by rw [abs_of_nonneg hnonneg, ← h.eq_ofMagnitude hnonneg], hnonneg⟩
  exact hrounding.between ⟨_, isAt_ofInt_zero⟩ ⟨_, isAt_ofInt_one⟩ hnonneg
    (max_le zero_le_one (min_le_left 1 q))

end Binary64

namespace Number

open Binary64 (IsRounding IsNearest ofInt ofMagnitude)

variable {a : Number} {x y : Binary64} {q v : Rat}

theorem zero_lt_double_iff (n : Number) : (double (ofInt 0)).lt n = Number.lt 0 n := by
  have hzero : (double (ofInt 0)).position? = some (.point 0) := Binary64.isAt_ofInt_zero
  unfold lt
  rw [hzero]
  rfl

theorem unitShare_double (x : Binary64) :
    ∃ y, (double x).unitShare = .double y ∧ y.isNegative = false := by
  obtain ⟨z, hz⟩ : ∃ z, Number.min (double (ofInt 1)) (double x) = .double z := by
    rcases min_cases (double (ofInt 1)) (double x) with h | h
    · exact ⟨_, h⟩
    · exact ⟨_, h⟩
  rw [unitShare, hz]
  cases hpos : (double (ofInt 0)).lt (double z) with
  | true => exact ⟨z, max_of_lt hpos, isNegative_of_pos ((zero_lt_double_iff _).symm.trans hpos)⟩
  | false => exact ⟨ofInt 0, max_of_not_lt hpos, rfl⟩

theorem lt_infinite (h : a.IsAt q) (negative : Bool) :
    a.lt (double (.infinite negative)) = !negative := by
  unfold IsAt at h
  unfold lt
  rw [h]
  cases negative <;> rfl

theorem infinite_lt (h : a.IsAt q) (negative : Bool) :
    (double (.infinite negative)).lt a = negative := by
  unfold IsAt at h
  unfold lt
  rw [h]
  cases negative <;> rfl

theorem unitShare_infinite (negative : Bool) :
    (double (.infinite negative)).unitShare = .double (ofInt (if negative then 0 else 1)) := by
  have hmin := infinite_lt Binary64.isAt_ofInt_one negative
  unfold unitShare Number.min
  rw [hmin]
  cases negative with
  | false => exact max_of_lt ((lt_iff Binary64.isAt_ofInt_zero Binary64.isAt_ofInt_one).mpr one_pos)
  | true => exact max_of_not_lt (lt_infinite Binary64.isAt_ofInt_zero true)

/-- **Shares.** The rounding of a number, kept between zero and one, is the double nearest to the
number kept there. -/
theorem unitShare_of_isRounding (h : IsRounding q x) :
    ∃ y, (double x).unitShare = .double y ∧ IsNearest false (clampUnit q) y := by
  obtain ⟨y, hy, hsign⟩ := unitShare_double x
  refine ⟨y, hy, (Binary64.isNearest_iff (clampUnit_nonneg q)).mpr ?_⟩
  cases hfinite : x.isFinite with
  | true =>
    obtain ⟨v, hv⟩ := exists_isAt hfinite
    have hshare : (double y).IsAt (clampUnit v) :=
      hy ▸ isAt_max Binary64.isAt_ofInt_zero (isAt_min Binary64.isAt_ofInt_one hv)
    have hrounded := Binary64.eq_ofMagnitude (h.isAt_clampUnit hv)
      (Binary64.isNegative_ofMagnitude false _)
    exact ⟨hrounded.trans (Binary64.eq_ofMagnitude hshare hsign).symm,
      Binary64.exists_isAt_iff.mp ⟨_, hshare⟩⟩
  | false =>
    have hlarge : Binary64.overflow ≤ |q| := by
      rw [← not_lt, ← h.isFinite_iff, hfinite]
      exact Bool.false_ne_true
    obtain ⟨negative, rfl, hq⟩ := h
    rw [Binary64.ofMagnitude_of_overflow negative hlarge, unitShare_infinite] at hy
    obtain rfl := double.inj hy
    cases negative with
    | false =>
      have hone : 1 ≤ Binary64.overflow := by simpa using Binary64.isExact_one.lt_overflow.le
      rw [clampUnit_of_one_le (hone.trans (hlarge.trans_eq (abs_of_nonneg hq)))]
      exact ⟨rfl, Binary64.exists_isAt_iff.mp ⟨_, Binary64.isAt_ofInt_one⟩⟩
    | true =>
      rw [clampUnit_of_nonpos hq]
      exact ⟨rfl, rfl⟩

/-- What is not negative needs to be kept below one only. -/
theorem min_one_double (hv : (double y).IsAt v) (h : y.isNegative = false) :
    Number.min (double (ofInt 1)) (double y) = (double y).unitShare := by
  rw [unitShare]
  cases hpos : (double (ofInt 0)).lt (Number.min (double (ofInt 1)) (double y)) with
  | true => rw [max_of_lt hpos]
  | false =>
    have hmin := isAt_min Binary64.isAt_ofInt_one hv
    have hnot : ¬0 < Min.min 1 v := by
      rw [← lt_iff Binary64.isAt_ofInt_zero hmin, hpos]
      exact Bool.false_ne_true
    have hnonneg : 0 ≤ v := by
      obtain ⟨negative, m, e, hfits, rfl, rfl⟩ := Binary64.isAt_double.mp hv
      obtain rfl : negative = false := h
      exact Binary64.exact_nonneg m e
    obtain rfl : v = 0 := by
      rw [lt_min_iff, not_and] at hnot
      exact le_antisymm (not_lt.mp (hnot one_pos)) hnonneg
    obtain rfl : y = ofInt 0 := Binary64.eq_ofMagnitude hv h
    rw [max_of_not_lt hpos]
    exact if_pos ((lt_iff Binary64.isAt_ofInt_zero Binary64.isAt_ofInt_one).mpr one_pos)

end Number

/-! ## Values of an opacity -/

/-- The number that a literal with a sign stands for. -/
def Literal.signedValue (s : Sign) (l : Literal) : Rat :=
  if s.isMinus then -l.magnitude else l.magnitude

theorem Literal.isRounding_read? (s : Sign) (l : Literal) : ∃ x,
    Binary64.read? (s.text ++ l.text) = some x ∧ Binary64.IsRounding (l.signedValue s) x := by
  have hnonneg := l.magnitude_nonneg
  refine ⟨_, l.read?_eq_ofMagnitude s, s.isMinus, ?_, ?_⟩
  · cases s <;> simp [signedValue, Sign.isMinus, abs_of_nonneg hnonneg]
  · cases s <;> simp [signedValue, Sign.isMinus, hnonneg]

/-- The fraction of a percentage that was read, kept below one, is the double nearest to its
hundredth part kept there. -/
theorem Percentage.exists_share {t : Text} {p : Percentage} (h : read t = .ok p) :
    ∃ (q : Rat) (y x : Binary64), p.value.IsAt q ∧ p.toFraction = .ok (.double y)
      ∧ Number.min (.double (Binary64.ofInt 1)) (.double y) = .double x
      ∧ Binary64.IsNearest false (clampUnit (q / 100)) x := by
  obtain ⟨q, y, hq, hy, hrounding, hfinite, hsign⟩ : ∃ (q : Rat) (y : Binary64),
      p.value.IsAt q ∧ p.toFraction = .ok (.double y) ∧ Binary64.IsRounding (q / 100) y
        ∧ y.isFinite = true ∧ y.isNegative = false := by
    obtain ⟨_, _, z, -, -, hz, rfl⟩ := read_eq_ok_iff.mp h
    obtain ⟨v, hv⟩ := Number.exists_isAt (Binary64.isFinite_of_readFinite? hz)
    cases hpos : Number.lt 0 (.double z) with
    | true =>
      have hvalue : (clamp (.double z)).value = .double z := Number.max_of_lt hpos
      have hhundred : Binary64.IsExact (100 : Int) := by simp
      have hrounding : Binary64.IsRounding (v / 100) (z.div (Binary64.ofInt 100)) :=
        Binary64.isRounding_div hv hhundred.isAt_ofRat
      refine ⟨v, z.div (Binary64.ofInt 100), by rwa [hvalue], toFraction_of_double hvalue,
        hrounding, ?_, ?_⟩
      · exact hrounding.isFinite_iff.mpr
          ((abs_div_le (by norm_num)).trans_lt (Binary64.IsExact.lt_overflow ⟨z, hv⟩))
      · have hvpos : 0 < v := (Number.lt_iff Number.isAt_zero hv).mp hpos
        exact hrounding.isNegative_of_pos (div_pos hvpos (by norm_num))
    | false =>
      have hvalue : (clamp (.double z)).value = 0 := Number.max_of_not_lt hpos
      refine ⟨0, Binary64.zero false, by rw [hvalue]; exact Number.isAt_zero,
        toFraction_of_zero hvalue, ?_, rfl, rfl⟩
      rw [zero_div]
      exact Binary64.isRounding_self (Binary64.isAt_zero_double false)
  obtain ⟨w, hw⟩ := Number.exists_isAt hfinite
  obtain ⟨x, hx, hnearest⟩ := Number.unitShare_of_isRounding hrounding
  exact ⟨q, y, x, hq, hy, (Number.min_one_double hw hsign).trans hx, hnearest⟩

/-! ## The property -/

namespace Style

variable {s : Style} {c : Context} {v : Text}

/-- A value with a percent sign at its end is read as a percentage. -/
theorem result_opacity_of_percent (hv : s.get? "opacity".toList = some v) (htrim : v.trim = v)
    (hpercent : ['%'].isSuffixOf v = true) : (s.opacity c).result = match Percentage.read v with
      | .ok p => p.toFraction.map fun n => some (Number.min (.double (Binary64.ofInt 1)) n)
      | .error _ => .ok none := by
  have hvalid : CalcSource.isValid v = false := by
    obtain ⟨front, hfront⟩ := List.isSuffixOf_iff_suffix.mp hpercent
    rw [← Bool.not_eq_true]
    intro hvalid
    obtain ⟨body, hbody⟩ := Option.isSome_iff_exists.mp hvalid
    have ht := (CalcSource.body?_eq_some hbody).1
    rw [htrim, ← hfront] at ht
    exact absurd (List.append_inj_right' ht rfl) (by decide)
  have hsize : (Resolver.attempt (Resolver.size c v)).result
      = .ok ((Percentage.read v).toOption.map .percentage) := by
    rw [(Resolver.answers_size c v).result_attempt, Resolver.toOption_size_of_not_valid hvalid]
    cases Percentage.read v with
    | ok p => rfl
    | error why =>
      dsimp only
      rw [Resolver.toOption_pixels_of_not_valid hvalid]
      cases hl : Length.read v with
      | error why => rfl
      | ok l =>
        obtain ⟨-, hnone, -⟩ := Resolver.forms_of_read_length hl
        rw [htrim, hpercent] at hnone
        cases hnone
  unfold opacity
  rw [hv]
  dsimp only
  rw [if_pos hpercent, Noted.result_bind, hsize]
  cases Percentage.read v with
  | error why => rfl
  | ok p =>
    show (Noted.ofResult p.toFraction >>= fun n => pure (some (Number.min _ n))).result = _
    rw [Noted.result_bind]
    dsimp only [Noted.ofResult]
    cases p.toFraction <;> rfl

/-- Any other value is read as a double. -/
theorem result_opacity_of_plain (hv : s.get? "opacity".toList = some v)
    (hplain : ['%'].isSuffixOf v = false) : (s.opacity c).result
      = .ok ((Binary64.read? v).map fun x => (Number.double x).unitShare) := by
  unfold opacity
  rw [hv]
  dsimp only
  rw [hplain]
  cases Binary64.read? v <;> rfl

/-- The values of a style are trimmed. -/
theorem trim_of_get? {pairs : List (Text × Option Text)} {name : Text}
    (hv : (normalize pairs).get? name = some v) : v.trim = v :=
  ((isTidy_normalize pairs).value _ (Entries.mem_of_get? hv)).2

/-- A literal ends without a percent sign. -/
theorem isSuffixOf_percent_of_read? {x : Binary64} (htrim : v.trim = v)
    (hx : Binary64.read? v = some x) : ['%'].isSuffixOf v = false := by
  rw [← Bool.not_eq_true, List.isSuffixOf_iff_suffix]
  rintro ⟨front, hfront⟩
  exact Binary64.percent_notMem_of_read? htrim hx (by simp [← hfront])

/-- **Opacity.** It is a number from zero to one or nothing. For a literal it is the double nearest to
the number kept between zero and one, for a percentage the one nearest to its hundredth part kept
there. There is one just for these, for literals with underscores between digits and for the names of
the infinities and of NaN. -/
theorem opacity_read (c : Context) {pairs : List (Text × Option Text)} {v : Text}
    (hv : (normalize pairs).get? "opacity".toList = some v) :
    ∃ o, ((normalize pairs).opacity c).result = .ok o
      ∧ (∀ n ∈ o, ∃ q, n.IsAt q ∧ 0 ≤ q ∧ q ≤ 1)
      ∧ (∀ (s : Sign) (l : Literal), v = s.text ++ l.text → ∃ x : Binary64, o = some (.double x)
        ∧ Binary64.IsNearest false (clampUnit (l.signedValue s)) x)
      ∧ (∀ p, Percentage.read v = .ok p → ∃ (q : Rat) (x : Binary64), p.value.IsAt q
        ∧ o = some (.double x) ∧ Binary64.IsNearest false (clampUnit (q / 100)) x)
      ∧ (o ≠ none ↔ (∃ (s : Sign) (l : Literal), v = s.text ++ l.text)
        ∨ (∃ p, Percentage.read v = .ok p) ∨ IsLoose v) := by
  have htrim := trim_of_get? hv
  cases hpercent : ['%'].isSuffixOf v with
  | true =>
    -- nothing with a percent sign reads as a double
    have hnone : ¬((∃ (s : Sign) (l : Literal), v = s.text ++ l.text) ∨ IsLoose v) := by
      rw [← Binary64.exists_read?_iff htrim]
      rintro ⟨x, hx⟩
      rw [isSuffixOf_percent_of_read? htrim hx] at hpercent
      cases hpercent
    obtain ⟨hliteral, hloose⟩ := not_or.mp hnone
    have hresult := result_opacity_of_percent (c := c) hv htrim hpercent
    cases hp : Percentage.read v with
    | error why =>
      rw [hp] at hresult
      refine ⟨none, hresult, by rintro _ ⟨⟩, fun s l h => absurd ⟨s, l, h⟩ hliteral,
        by rintro _ ⟨⟩, iff_of_false (fun h => h rfl) ?_⟩
      rintro (h | ⟨_, ⟨⟩⟩ | h)
      · exact hliteral h
      · exact hloose h
    | ok p =>
      obtain ⟨q, y, x, hq, hy, hx, hnearest⟩ := Percentage.exists_share hp
      rw [hp] at hresult
      dsimp only at hresult
      rw [hy] at hresult
      refine ⟨some (.double x), hresult.trans (by rw [← hx]; rfl), ?_,
        fun s l h => absurd ⟨s, l, h⟩ hliteral, ?_, ?_⟩
      · rintro _ ⟨⟩
        exact hnearest.between_zero_one
      · rintro _ ⟨⟩
        exact ⟨q, x, hq, rfl, hnearest⟩
      · exact iff_of_true nofun (.inr (.inl ⟨p, rfl⟩))
  | false =>
    have hpercentage (p : Percentage) : Percentage.read v ≠ .ok p := by
      intro hp
      have hsuffix := (Resolver.forms_of_read_percentage hp).2
      rw [htrim, hpercent] at hsuffix
      cases hsuffix
    refine ⟨_, result_opacity_of_plain hv hpercent, ?_, ?_,
      fun p hp => absurd hp (hpercentage p), ?_⟩
    · intro n hn
      obtain ⟨x, -, rfl⟩ := Option.map_eq_some_iff.mp hn
      exact (Number.within_clamp Binary64.isAt_ofInt_zero Binary64.isAt_ofInt_one (.double x)
        zero_le_one Binary64.isExact_zero Binary64.isExact_one).isAt
    · rintro s l rfl
      obtain ⟨z, hz, hrounding⟩ := l.isRounding_read? s
      obtain ⟨x, hx, hnearest⟩ := Number.unitShare_of_isRounding hrounding
      exact ⟨x, by rw [hz, Option.map_some, hx], hnearest⟩
    · rw [← or_left_comm, or_iff_right (by rintro ⟨p, hp⟩; exact hpercentage p hp),
        ← Binary64.exists_read?_iff htrim, ← Option.isSome_iff_exists, ← Option.isSome_iff_ne_none,
        Option.isSome_map]

/-- A literal beyond the doubles counts as one, and a percentage as its hundredth part. -/
theorem opacity_read_large :
    ((normalize [("opacity".toList, some " 1e999".toList)]).opacity .default).result
      = .ok (some (.double (Binary64.ofInt 1)))
    ∧ ∃ (p : Percentage) (q : Rat) (x : Binary64), Percentage.read "50%".toList = .ok p
      ∧ p.value.IsAt q ∧ Binary64.IsNearest false (clampUnit (q / 100)) x
      ∧ ((normalize [("opacity".toList, some "50%".toList)]).opacity .default).result
        = .ok (some (.double x)) := by
  constructor
  · have hv : (normalize [("opacity".toList, some " 1e999".toList)]).get? "opacity".toList
        = some "1e999".toList := by decide +kernel
    obtain ⟨_, ho, -, hliteral, -⟩ := opacity_read .default hv
    let power : Exponent := ⟨'e', .absent, ['9', '9', '9'], rfl, by decide, by decide⟩
    let large : Literal := ⟨['1'], none, some power, by decide, by decide⟩
    obtain ⟨x, rfl, hx⟩ := hliteral .absent large rfl
    rw [clampUnit_of_one_le (by decide +kernel : 1 ≤ large.signedValue .absent)] at hx
    rw [ho, hx.eq_ofMagnitude zero_le_one]
    rfl
  · have hv : (normalize [("opacity".toList, some "50%".toList)]).get? "opacity".toList
        = some "50%".toList := by decide +kernel
    obtain ⟨_, ho, -, -, hpercentage, -⟩ := opacity_read .default hv
    obtain ⟨p, hp⟩ := exists_of_isOk (r := Percentage.read "50%".toList) (by decide +kernel)
    obtain ⟨q, x, hq, rfl, hnearest⟩ := hpercentage p hp
    exact ⟨p, q, x, hp, hq, hnearest, ho⟩

/-- A word is taken for a number, though it is no literal and no percentage. -/
theorem not_opacity_read :
    ((ofEntries [("opacity".toList, some "inf".toList)]).opacity .default).result
        = .ok (some (.double (Binary64.ofInt 1)))
      ∧ (¬∃ (s : Sign) (l : Literal), "inf".toList = s.text ++ l.text)
      ∧ ¬∃ p, Percentage.read "inf".toList = .ok p := by
  refine ⟨by decide +kernel, ?_, ?_⟩
  · rintro ⟨s, l, hl⟩
    have hsplit := l.splitNumber?_text s endsNumeral_nil
    rw [List.append_nil, ← hl] at hsplit
    cases hsplit
  · rintro ⟨p, hp⟩
    have hnone : (Percentage.read "inf".toList).isOk = false := by decide +kernel
    rw [hp] at hnone
    cases hnone

end Style

end CssValues
