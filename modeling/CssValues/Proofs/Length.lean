import CssValues.Length
import CssValues.Proofs.Number.Plain
import CssValues.Proofs.Quantity
import CssValues.Proofs.Text.Casing
import CssValues.Proofs.Unit

/-!
# Lengths written and read back

Main result: `Length.read_css`, a length as style values write it is read back unless it is beyond
the doubles in the default context.
-/

namespace CssValues

/-! ## The size of a double without its sign -/

namespace Binary64

theorem isFinite_abs (x : Binary64) : x.abs.isFinite = x.isFinite := by cases x <;> rfl

theorem abs_unsignZero (x : Binary64) : x.unsignZero.abs = x.abs := by
  unfold unsignZero
  split
  · next hzero =>
    cases x with
    | finite negative m e h =>
      obtain rfl : m = 0 := by simpa [isZero] using hzero
      rw [finite_zero]
      rfl
    | infinite negative => cases hzero
    | nan => cases hzero
  · rfl

theorem abs_mul (x y : Binary64) : (x.mul y).abs = x.abs.mul y.abs := by
  obtain ⟨a, m, e, hx⟩ | a | _ := x <;> obtain ⟨b, n, f, hy⟩ | b | _ := y
  case finite.finite => exact abs_ofMagnitude _ _
  case finite.infinite => by_cases hm : m = 0 <;> simp [mul, abs, hm, isNegative]
  case infinite.finite => by_cases hn : n = 0 <;> simp [mul, abs, hn, isNegative]
  all_goals rfl

theorem abs_div (x y : Binary64) : (x.div y).abs = x.abs.div y.abs := by
  obtain ⟨a, m, e, hx⟩ | a | _ := x <;> obtain ⟨b, n, f, hy⟩ | b | _ := y
  case finite.finite => exact abs_ofMagnitude _ _
  all_goals rfl

end Binary64

theorem LengthUnit.isFinite_apply_unsignZero (s : Scale) (x : Binary64) :
    (s.apply x.unsignZero).isFinite = (s.apply x).isFinite := by
  rw [← Binary64.isFinite_abs, ← Binary64.isFinite_abs (s.apply x)]
  unfold Scale.apply
  split
  · rw [Binary64.abs_div, Binary64.abs_div, Binary64.abs_mul, Binary64.abs_mul,
      Binary64.abs_unsignZero]
  · rw [Binary64.abs_mul, Binary64.abs_mul, Binary64.abs_unsignZero]

/-! ## Reading a written length -/

theorem Sign.exists_text_cons (s : Sign) (l : Literal) :
    ∃ c t, s.text ++ l.text = c :: t ∧ (c.toNat < 0x41 ∨ Text.isDigit c = true)
      ∧ Text.isLetter c = false := by
  cases s with
  | plus => exact ⟨'+', l.text, rfl, .inl (by decide), by decide⟩
  | minus => exact ⟨'-', l.text, rfl, .inl (by decide), by decide⟩
  | absent =>
    obtain ⟨c, t, htext, hdigit | rfl⟩ := l.exists_text_cons
    · refine ⟨c, t, htext, .inr hdigit, ?_⟩
      rw [← Bool.not_eq_true]
      intro hletter
      rw [(Text.of_isLetter hletter).1] at hdigit
      cases hdigit
    · exact ⟨'.', t, htext, .inl (by decide), by decide⟩

namespace Length

theorem checked_eq {x : Binary64} {u : LengthUnit} (hx : x.isFinite = true) {s : LengthUnit.Scale}
    (hs : ∀ y : Binary64, u.toPixels (.double y) .default = .ok (.double (s.apply y))) :
    checked ⟨.double x, u, hx⟩
      = if (s.apply x).isFinite then .ok ⟨.double x, u, hx⟩ else .error .overflow := by
  unfold checked
  simp only [toPixels, hs, Number.isFinite_double]
  split
  · next heq => cases heq
  · next heq => rw [Except.ok.inj heq, if_pos rfl]
  · next heq => rw [Except.ok.inj heq, if_neg (by decide)]

/-- A length in pixels is never too large. -/
theorem checked_px {x : Binary64} (hx : x.isFinite = true) :
    checked ⟨.double x, .px, hx⟩ = .ok ⟨.double x, .px, hx⟩ := by
  simp only [checked, toPixels, LengthUnit.toPixels_px hx, Number.isFinite_double, hx]

theorem isEmpty_of_splitNumber? {t number name : Text} (h : splitNumber? t = some (number, name)) :
    t.isEmpty = false := by
  cases t with
  | nil => cases h
  | cons c t => rfl

/-- Reading, once letters have been told from a number in range. -/
theorem read_of_letters {t number name : Text} {x : Binary64}
    (hkeyword : isNonNumericKeyword t.trim = false)
    (hsplit : splitNumber? t.trim = some (number, name)) (hletters : name.all Text.isLetter = true)
    (hnumber : Binary64.readFinite? number = some x) (hx : x.isFinite = true) :
    read t = if name.isEmpty then .ok ⟨.double x, .px, hx⟩
      else match LengthUnit.lookup? name with
        | none => .error .unknownUnit
        | some u => checked ⟨.double x, u, hx⟩ := by
  unfold read
  simp only [isEmpty_of_splitNumber? hsplit, hkeyword, hsplit, hletters, Bool.false_eq_true,
    if_false, if_true]
  split
  · next hnone =>
    rw [hnumber] at hnone
    cases hnone
  · next y hy =>
    obtain rfl : x = y := Option.some.inj (hnumber.symm.trans hy)
    rfl

/-- A number is no keyword, whatever stands behind it. -/
theorem isNonNumericKeyword_of_splitNumber? {t number name : Text}
    (h : splitNumber? t = some (number, name)) : isNonNumericKeyword t = false := by
  obtain ⟨s, l, rfl, rfl⟩ := Literal.exists_of_splitNumber? h
  obtain ⟨c, rest, htext, hfirst, hletter⟩ := s.exists_text_cons l
  obtain ⟨r, hr⟩ := Text.exists_lower_cons hfirst (rest ++ name)
  rw [htext, List.cons_append]
  exact isNonNumericKeyword_eq_false hr hletter

/-- A number with the name of a unit reads as a length, if that is small enough. -/
theorem read_of_split {t number name : Text} {u : LengthUnit} {x : Binary64}
    (hsplit : splitNumber? t.trim = some (number, name))
    (hname : (TermUnit.length u).IsWritten name) (hnumber : Binary64.readFinite? number = some x) :
    read t = checked ⟨.double x, u, Binary64.isFinite_of_readFinite? hnumber⟩ := by
  have hkeyword := isNonNumericKeyword_of_splitNumber? hsplit
  have hx := Binary64.isFinite_of_readFinite? hnumber
  rcases hname.cases with ⟨rfl, hu⟩ | ⟨-, hu⟩ | ⟨v, hu, hlower, hletters, c, d, rest, rfl⟩
  · cases hu
    rw [read_of_letters hkeyword hsplit rfl hnumber hx, checked_px]
    rfl
  · cases hu
  · cases hu
    have hall := List.all_eq_true.mpr hletters
    have hlookup := (LengthUnit.lookup?_eq_some_iff hall).mpr hlower
    rw [read_of_letters hkeyword hsplit hall hnumber hx, if_neg (by simp), hlookup]

/-- A numeral with a unit reads as the nearest double with that unit, if that is small enough. -/
theorem read_numeral (n : Numeral) (negative : Bool) (u : LengthUnit) {x : Binary64}
    (hvalue : (n.decimal negative).toDouble = x) (hx : x.isFinite = true) :
    read (signed negative n.text ++ u.name) = checked ⟨.double x, u, hx⟩ := by
  have hnumber : Binary64.readFinite? ((Sign.ofNegative negative).text ++ n.toLiteral.text)
      = some x := by
    rw [n.text_toLiteral, ← signed_eq]
    exact n.readFinite?_text hvalue hx
  have hsplit := Quantity.splitNumber?_signed_text (.ofNegative negative) (n.withUnit (.length u))
  rw [← Quantity.trim_signed_text, n.signed_text_withUnit] at hsplit
  exact read_of_split hsplit (TermUnit.isWritten_name _) hnumber

/-- What is read from a written length, its value being a double. -/
theorem exists_css {x : Binary64} (hx : x.isFinite = true) (u : LengthUnit) :
    ∃ t, css ⟨.double x, u, hx⟩ = .ok t
      ∧ read t = checked ⟨.double x.unsignZero, u, Binary64.isFinite_unsignZero hx⟩ := by
  obtain ⟨n, negative, hplain, hvalue⟩ := Binary64.exists_numeral_plain hx
  refine ⟨signed negative n.text ++ u.name, ?_, ?_⟩
  · rw [← hplain]
    rfl
  · exact read_numeral n negative u hvalue _

/-- A written length reads back if its size in the default context is finite, and only then. -/
theorem read_back {x : Binary64} (hx : x.isFinite = true) (u : LengthUnit) {s : LengthUnit.Scale}
    (hs : ∀ y : Binary64, u.toPixels (.double y) .default = .ok (.double (s.apply y))) :
    ∃ t, css ⟨.double x, u, hx⟩ = .ok t
      ∧ ((s.apply x).isFinite = true →
        ∃ l, read t = .ok l ∧ l.equals ⟨.double x, u, hx⟩ = true)
      ∧ ((s.apply x).isFinite = false → read t = .error .overflow) := by
  obtain ⟨t, hcss, hread⟩ := exists_css hx u
  rw [checked_eq _ hs, LengthUnit.isFinite_apply_unsignZero] at hread
  refine ⟨t, hcss, fun hfinite => ?_, fun hlarge => ?_⟩
  · rw [hfinite, if_pos rfl] at hread
    refine ⟨_, hread, ?_⟩
    simp [equals, Binary64.equals_unsignZero hx]
  · rw [hlarge, if_neg (by decide)] at hread
    exact hread

/-- Reading gives a double whose size in the default context is finite, or a refusal that is no
fault. -/
theorem read_cases (t : Text) :
    (∃ (x : Binary64) (hx : x.isFinite = true) (u : LengthUnit) (y : Binary64),
      read t = .ok ⟨.double x, u, hx⟩ ∧ u.toPixels (.double x) .default = .ok (.double y)
        ∧ y.isFinite = true)
    ∨ ∃ why, read t = .error why ∧ why.fault? = none := by
  simp only [read]
  split
  · exact .inr ⟨_, rfl, rfl⟩
  split
  · exact .inr ⟨_, rfl, rfl⟩
  split
  · exact .inr ⟨_, rfl, rfl⟩
  split
  · split
    · exact .inr ⟨_, rfl, rfl⟩
    · next x hread =>
      have hx := Binary64.isFinite_of_readFinite? hread
      split
      · exact .inl ⟨x, hx, .px, x, rfl, LengthUnit.toPixels_px hx _, hx⟩
      · split
        · exact .inr ⟨_, rfl, rfl⟩
        · next u _ =>
          obtain ⟨s, -, -, hs⟩ := u.exists_scale .default
          rw [checked_eq hx hs]
          split
          · next hfinite => exact .inl ⟨x, hx, u, s.apply x, rfl, hs x, hfinite⟩
          · exact .inr ⟨_, rfl, rfl⟩
  · exact .inr ⟨_, rfl, rfl⟩

theorem exists_double_of_read {t : Text} {l : Length} (h : read t = .ok l) :
    ∃ (x : Binary64) (hx : x.isFinite = true) (y : Binary64),
      l = ⟨.double x, l.unit, hx⟩ ∧ l.toPixels .default = .ok (.double y) ∧ y.isFinite = true := by
  rcases read_cases t with ⟨x, hx, u, y, hread, hy, hfinite⟩ | ⟨why, hread, -⟩
  · rw [hread] at h
    cases h
    exact ⟨x, hx, y, rfl, hy, hfinite⟩
  · rw [hread] at h
    cases h

theorem read_ne_fault (t : Text) (f : Fault) : read t ≠ .error (.fault f) := by
  intro h
  rcases read_cases t with ⟨x, hx, u, y, hread, -, -⟩ | ⟨why, hread, hwhy⟩
  · rw [hread] at h
    cases h
  · rw [hread] at h
    cases h
    cases hwhy

/-- **Round trip.** A written length reads back equal if its size in the default context is finite,
and is refused otherwise; what was read before always reads back equal. -/
theorem read_css :
    (∀ (x : Binary64) (hx : x.isFinite = true) (u : LengthUnit), ∃ (t : Text) (y : Binary64),
      css ⟨.double x, u, hx⟩ = .ok t ∧ toPixels ⟨.double x, u, hx⟩ .default = .ok (.double y)
        ∧ (y.isFinite = true → ∃ l, read t = .ok l ∧ l.equals ⟨.double x, u, hx⟩ = true)
        ∧ (y.isFinite = false → read t = .error .overflow))
    ∧ ∀ (s : Text) (l : Length), read s = .ok l →
      ∃ t m, l.css = .ok t ∧ read t = .ok m ∧ m.equals l = true := by
  refine ⟨fun x hx u => ?_, fun s l hread => ?_⟩
  · obtain ⟨s, -, -, hs⟩ := u.exists_scale .default
    obtain ⟨t, hcss, hback, hlost⟩ := read_back hx u hs
    exact ⟨t, s.apply x, hcss, hs x, hback, hlost⟩
  · obtain ⟨x, hx, y, hl, hy, hfinite⟩ := exists_double_of_read hread
    obtain ⟨s, -, -, hs⟩ := l.unit.exists_scale .default
    obtain ⟨t, hcss, hback, -⟩ := read_back hx l.unit hs
    have hsize : y = s.apply x := by
      rw [hl, toPixels, hs x] at hy
      cases hy
      rfl
    obtain ⟨m, hm, hequal⟩ := hback (hsize ▸ hfinite)
    rw [hl]
    exact ⟨t, m, hcss, hm, hequal⟩

/-- The least double in `em` reads back, the greatest in inches does not, and a length in scientific
form reads back from its positional form. -/
theorem read_css_extremes :
    (∃ t l, css ⟨.double (.finite true 1 (-1074) (by decide)), .em, rfl⟩ = .ok t ∧ read t = .ok l
      ∧ l.equals ⟨.double (.finite true 1 (-1074) (by decide)), .em, rfl⟩ = true)
    ∧ (∃ t, css ⟨.double (.finite false 9007199254740991 971 (by decide)), .inch, rfl⟩ = .ok t
      ∧ read t = .error .overflow)
    ∧ ∃ l t m, read "-.5E-3eM".toList = .ok l ∧ l.css = .ok t ∧ read t = .ok m
      ∧ m.equals l = true := by
  refine ⟨?_, ?_, ?_⟩
  · obtain ⟨t, y, hcss, hy, hback, -⟩ := read_css.1 (.finite true 1 (-1074) (by decide)) rfl .em
    have hsize : toPixels ⟨.double (.finite true 1 (-1074) (by decide)), .em, rfl⟩ .default
        = .ok (.double (.finite true 16 (-1074) (by decide))) := by decide +kernel
    rw [hsize] at hy
    cases hy
    obtain ⟨l, hread, hequal⟩ := hback rfl
    exact ⟨t, l, hcss, hread, hequal⟩
  · obtain ⟨t, y, hcss, hy, -, hlost⟩ :=
      read_css.1 (.finite false 9007199254740991 971 (by decide)) rfl .inch
    have hsize : toPixels ⟨.double (.finite false 9007199254740991 971 (by decide)), .inch, rfl⟩
        .default = .ok (.double (.infinite false)) := by decide +kernel
    rw [hsize] at hy
    cases hy
    exact ⟨t, hcss, hlost rfl⟩
  · have hread : ∃ l, read "-.5E-3eM".toList = .ok l := by
      rcases read_cases "-.5E-3eM".toList with ⟨x, hx, u, y, hread, -, -⟩ | ⟨why, hread, -⟩
      · exact ⟨_, hread⟩
      · have hok : (read "-.5E-3eM".toList).toOption.isSome = true := by decide +kernel
        rw [hread] at hok
        cases hok
    obtain ⟨l, hl⟩ := hread
    obtain ⟨t, m, hcss, hm, hequal⟩ := read_css.2 _ l hl
    exact ⟨l, t, m, hl, hcss, hm, hequal⟩

end Length

end CssValues
