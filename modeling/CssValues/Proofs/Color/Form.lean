import CssValues.Proofs.Color
import CssValues.Proofs.Resolver
import CssValues.Proofs.Text.HexDigits

/-!
# One form for a colour

A text is written in one form of colours at most: every name has a letter that is no hexadecimal
digit, and only the form of a function has a parenthesis. So the forms may be tried in any order
(`Color.firstOf_congr`). Main result: `Color.attempt_unambiguous`.
-/

namespace CssValues.Color

/-! ## The forms -/

/-- The ways in which a colour can be written. -/
inductive Form where
  | name
  | digits
  | function
  deriving DecidableEq

/-- The colour of a text in one form, if the text is written in this form. -/
def Form.attempt (t : Text) : Form → Except Fault (Option Color)
  | .name => .ok (ofName? t)
  | .digits => .ok (ofHex? t)
  | .function =>
    match ofRgb t with
    | .ok c => .ok (some c)
    | .error (.fault f) => .error f
    | .error _ => .ok none

/-- The colour of a text in the first of some forms that it is written in. -/
def firstOf (t : Text) : List Form → Except Fault (Option Color)
  | [] => .ok none
  | form :: forms => do
    match ← form.attempt t with
    | some c => return some c
    | none => firstOf t forms

variable {t : Text}

/-! ## The forms exclude each other -/

/-- Hexadecimal digits, perhaps behind `#`, are no name. -/
theorem ofName?_eq_none_of_hex (h : ∀ c ∈ t.trim, c = '#' ∨ Text.isHexDigit c = true) :
    ofName? t = none := by
  have hnames : ∀ w ∈ Entries.keys named, (w.any fun c => c != '#' && !Text.isHexDigit c) = true := by
    decide
  have hlower : Text.lower t.trim = Text.asciiLower t.trim := by
    refine Text.lower_ascii fun c hc => ?_
    rcases h c hc with rfl | hdigit
    · decide
    · have := Text.isHexDigit_iff.mp hdigit
      omega
  refine Entries.get?_eq_none_iff.mpr fun hmem => ?_
  obtain ⟨c, hc, hother⟩ := List.any_eq_true.mp (hnames _ hmem)
  rw [Bool.and_eq_true, bne_iff_ne, Bool.not_eq_true'] at hother
  obtain ⟨hne, hdigit⟩ := hother
  rw [hlower] at hc
  obtain ⟨d, hd, rfl⟩ := List.mem_map.mp hc
  rcases h d hd with rfl | hhex
  · exact hne (by decide)
  · rw [Text.isHexDigit_toLower, hhex] at hdigit
    cases hdigit

theorem ofHex?_of_hash {rest : Text} (h : t.trim = '#' :: rest) :
    ofHex? t = if rest.all Text.isHexDigit then ofHexDigits? rest else none := by
  unfold ofHex?
  rw [h]
  rfl

theorem ofHex?_of_ne_hash (h : '#' ∉ t.trim.head?) :
    ofHex? t = if t.trim.all Text.isHexDigit then ofHexDigits? t.trim else none := by
  unfold ofHex?
  generalize t.trim = body at h
  dsimp only
  split
  · exact absurd rfl h
  · rfl

theorem mem_of_ofHex? {c : Color} (h : ofHex? t = some c) :
    ∀ d ∈ t.trim, d = '#' ∨ Text.isHexDigit d = true := by
  by_cases hhash : '#' ∈ t.trim.head?
  · obtain ⟨rest, hrest⟩ := List.head?_eq_some_iff.mp hhash
    rw [ofHex?_of_hash hrest] at h
    split at h
    · next hall =>
      intro d hd
      rw [hrest] at hd
      exact (List.mem_cons.mp hd).imp_right (List.all_eq_true.mp hall d)
    · cases h
  · rw [ofHex?_of_ne_hash hhash] at h
    split at h
    · next hall => exact fun d hd => .inr (List.all_eq_true.mp hall d hd)
    · cases h

theorem mem_paren_of_function (h : Form.function.attempt t ≠ .ok none) : '(' ∈ t.trim := by
  unfold Form.attempt ofRgb at h
  cases hsplit : splitRgb? t with
  | none =>
    rw [hsplit] at h
    exact absurd rfl h
  | some channels =>
    obtain ⟨-, -, -, -, hparen⟩ := exists_of_splitRgb? hsplit
    exact hparen

theorem attempt_name_of_digits (h : Form.digits.attempt t ≠ .ok none) :
    Form.name.attempt t = .ok none := by
  unfold Form.attempt at h ⊢
  cases hhex : ofHex? t with
  | none =>
    rw [hhex] at h
    exact absurd rfl h
  | some c => rw [ofName?_eq_none_of_hex (mem_of_ofHex? hhex)]

/-- **Exclusion.** A text that one form accepts, or fails to read, is none of the other forms. -/
theorem Form.unique {f g : Form} (hf : f.attempt t ≠ .ok none) (hg : g.attempt t ≠ .ok none) :
    f = g := by
  have hname (h : Form.function.attempt t ≠ .ok none) : Form.name.attempt t = .ok none :=
    congrArg Except.ok (ofName?_eq_none (mem_paren_of_function h))
  have hdigits (h : Form.function.attempt t ≠ .ok none) : Form.digits.attempt t = .ok none :=
    congrArg Except.ok (ofHex?_eq_none (mem_paren_of_function h))
  cases f <;> cases g
  case name.digits => exact absurd (attempt_name_of_digits hg) hf
  case name.function => exact absurd (hname hg) hf
  case digits.name => exact absurd (attempt_name_of_digits hf) hg
  case digits.function => exact absurd (hdigits hg) hf
  case function.name => exact absurd (hname hf) hg
  case function.digits => exact absurd (hdigits hf) hg
  all_goals rfl

/-! ## Trying the forms one after the other -/

theorem firstOf_cons_of_none {form : Form} (h : form.attempt t = .ok none) (forms : List Form) :
    firstOf t (form :: forms) = firstOf t forms := by
  rw [firstOf, h]
  rfl

theorem firstOf_cons_of_ne {form : Form} (h : form.attempt t ≠ .ok none) (forms : List Form) :
    firstOf t (form :: forms) = form.attempt t := by
  rw [firstOf]
  match hform : form.attempt t with
  | .error f => rfl
  | .ok (some c) => rfl
  | .ok none => exact absurd hform h

theorem firstOf_eq_none {forms : List Form} (h : ∀ form ∈ forms, form.attempt t = .ok none) :
    firstOf t forms = .ok none := by
  induction forms with
  | nil => rfl
  | cons form forms ih =>
    obtain ⟨hform, hforms⟩ := List.forall_mem_cons.mp h
    rw [firstOf_cons_of_none hform, ih hforms]

theorem firstOf_eq_of_mem {forms : List Form} {form : Form} (hmem : form ∈ forms)
    (h : form.attempt t ≠ .ok none) : firstOf t forms = form.attempt t := by
  induction forms with
  | nil => cases hmem
  | cons first forms ih =>
    by_cases hfirst : first.attempt t = .ok none
    · rw [firstOf_cons_of_none hfirst]
      rcases List.mem_cons.mp hmem with rfl | hmem
      · exact absurd hfirst h
      · exact ih hmem
    · rw [firstOf_cons_of_ne hfirst, Form.unique hfirst h]

/-- **Order.** Any two rows of all forms find the same colour. -/
theorem firstOf_congr {forms order : List Form} (hforms : ∀ form, form ∈ forms)
    (horder : ∀ form, form ∈ order) : firstOf t forms = firstOf t order := by
  by_cases hnone : ∀ form : Form, form.attempt t = .ok none
  · rw [firstOf_eq_none fun form _ => hnone form, firstOf_eq_none fun form _ => hnone form]
  · obtain ⟨form, hform⟩ := not_forall.mp hnone
    rw [firstOf_eq_of_mem (hforms form) hform, firstOf_eq_of_mem (horder form) hform]

/-- A blank text is written in no form. -/
theorem attempt_of_blank (h : Text.isBlankText t = true) (form : Form) :
    form.attempt t = .ok none := by
  have htrim : t.trim = [] := Text.trim_eq_nil_iff.mpr h
  cases form with
  | name =>
    rw [Form.attempt, ofName?, htrim]
    rfl
  | digits =>
    rw [Form.attempt, ofHex?, htrim]
    rfl
  | function =>
    rw [Form.attempt, ofRgb, splitRgb?, htrim]
    rfl

/-- Reading a colour tries the forms in the order in which they are listed. -/
theorem result_attempt (t : Text) :
    (Color.attempt t).result = firstOf t [.name, .digits, .function] := by
  cases hblank : Text.isBlankText t with
  | true =>
    rw [firstOf_eq_none fun form _ => attempt_of_blank hblank form]
    simp only [Color.attempt, read, hblank, if_true]
  | false =>
    simp only [Color.attempt, read, hblank, Bool.false_eq_true, if_false, firstOf, Form.attempt]
    cases hname : ofName? t with
    | some c => rfl
    | none =>
      cases hhex : ofHex? t with
      | some c => rfl
      | none =>
        cases hrgb : ofRgb t with
        | ok c => rfl
        | error why => cases why <;> rfl

/-! ## Channels in and out of range -/

theorem val_ofInt {n : Nat} (h : n ≤ 255) : (Channel.ofInt n).val = n := by
  simp only [Channel.ofInt, Int.toNat_natCast]
  exact Nat.min_eq_left h

/-- Reading the form of a function: a channel above the upper end refuses the whole text. -/
theorem read_rgbText (r : RgbText) (h : ∀ c ∈ r.channels, c.IsShort) :
    read r.text = if ∀ c ∈ r.channels, c.value ≤ 255
      then .ok (ofLevels r.red.value r.green.value r.blue.value)
      else .error .channelOutOfRange := by
  have hparen : '(' ∈ r.text.trim := by
    rw [r.trim_text]
    simp
  simp only [RgbText.channels, List.forall_mem_cons, List.not_mem_nil, false_implies, implies_true,
    and_true] at h ⊢
  obtain ⟨hred, hgreen, hblue⟩ := h
  have hread : [r.red.digits, r.green.digits, r.blue.digits].mapM readDigits
      = .ok [r.red.value, r.green.value, r.blue.value] := by
    rw [List.mapM_cons, readDigits_of_short hred, List.mapM_cons, readDigits_of_short hgreen,
      List.mapM_cons, readDigits_of_short hblue]
    rfl
  rw [read_eq_ofRgb hparen, ofRgb, r.splitRgb?_text]
  simp only [hread, List.any_cons, List.any_nil, Bool.or_false, Bool.or_eq_true, decide_eq_true_eq]
  by_cases hall : r.red.value ≤ 255 ∧ r.green.value ≤ 255 ∧ r.blue.value ≤ 255
  · rw [if_neg (by omega), if_pos hall]
  · rw [if_pos (by omega), if_neg hall]

/-- **Strictness.** Channels up to 255 are those of the colour; with one above there is none. -/
theorem attempt_rgbText (r : RgbText) (h : ∀ c ∈ r.channels, c.IsShort) :
    ((∀ c ∈ r.channels, c.value ≤ 255) → ∃ color, (Color.attempt r.text).result = .ok (some color)
      ∧ [color.red.val, color.green.val, color.blue.val] = r.channels.map ChannelText.value)
    ∧ ((∃ c ∈ r.channels, 255 < c.value) → (Color.attempt r.text).result = .ok none) := by
  have hread := read_rgbText r h
  constructor
  · intro hall
    rw [if_pos hall] at hread
    refine ⟨ofLevels r.red.value r.green.value r.blue.value, ?_, ?_⟩
    · rw [Color.attempt, hread]
      rfl
    · simp only [RgbText.channels, List.forall_mem_cons] at hall
      obtain ⟨hred, hgreen, hblue, -⟩ := hall
      simp [ofLevels, RgbText.channels, val_ofInt hred, val_ofInt hgreen, val_ofInt hblue]
  · rintro ⟨c, hc, habove⟩
    rw [if_neg fun hall => absurd (hall c hc) (not_le.mpr habove)] at hread
    rw [Color.attempt, hread]

/-! ## Main result -/

/-- **One form only.** No text is accepted in two forms, and the forms may be tried in any order.
`rgb()` and `rgba()` with channels of any size that an integer may be written with give the colour
that has these channels if they are up to 255, and else no colour, whatever the opacity is. -/
theorem attempt_unambiguous :
    (∀ (t : Text) (f g : Form) (c d : Color), f.attempt t = .ok (some c) →
      g.attempt t = .ok (some d) → f = g)
    ∧ (∀ (t : Text) (order : List Form), (∀ form, form ∈ order) →
      firstOf t order = (Color.attempt t).result)
    ∧ ∀ r : RgbText, (∀ c ∈ r.channels, c.IsShort) →
      ((∀ c ∈ r.channels, c.value ≤ 255) → ∃ color, (Color.attempt r.text).result = .ok (some color)
        ∧ [color.red.val, color.green.val, color.blue.val] = r.channels.map ChannelText.value)
      ∧ ((∃ c ∈ r.channels, 255 < c.value) → (Color.attempt r.text).result = .ok none) := by
  refine ⟨fun t f g c d hf hg => ?_, fun t order horder => ?_, attempt_rgbText⟩
  · refine Form.unique (t := t) ?_ ?_
    · rw [hf]
      nofun
    · rw [hg]
      nofun
  · rw [result_attempt]
    refine firstOf_congr horder fun form => ?_
    cases form <;> decide

/-- Digits as the only form of a text, the forms tried backwards, blanks everywhere with zeros in
front and an opacity, and a channel one above the end. -/
theorem attempt_unambiguous_spaced :
    (∀ g d, g.attempt "#aBc".toList = .ok (some d) → g = Form.digits)
    ∧ firstOf "#aBc".toList [.function, .digits, .name] = (Color.attempt "#aBc".toList).result
    ∧ (∃ color, (Color.attempt " RgBa( 007,255 ,1\t, .5 )\n".toList).result = .ok (some color)
      ∧ [color.red.val, color.green.val, color.blue.val] = [7, 255, 1])
    ∧ (Color.attempt "rgb(0,256,0)".toList).result = .ok none := by
  refine ⟨fun g d hg => ?_, ?_, ?_, ?_⟩
  · exact attempt_unambiguous.1 _ g .digits d ⟨0xAA, 0xBB, 0xCC⟩ hg rfl
  · refine attempt_unambiguous.2.1 _ _ fun form => ?_
    cases form <;> decide
  · refine (attempt_unambiguous.2.2 ⟨⟨[' '], by decide⟩, "RgBa".toList,
      ⟨⟨[' '], by decide⟩, "007".toList, .none, by decide, by decide⟩,
      ⟨.none, "255".toList, ⟨[' '], by decide⟩, by decide, by decide⟩,
      ⟨.none, ['1'], ⟨['\t'], by decide⟩, by decide, by decide⟩,
      some ⟨⟨[' '], by decide⟩, [], some ['5'], ⟨[' '], by decide⟩, by decide, by decide⟩,
      ⟨['\n'], by decide⟩, .inr (by decide)⟩ ?_).1 ?_
    · simp [RgbText.channels, ChannelText.IsShort, maxDigits]
    · simp only [RgbText.channels, List.forall_mem_cons]
      decide
  · refine (attempt_unambiguous.2.2 ⟨.none, "rgb".toList, .zero,
      ⟨.none, "256".toList, .none, by decide, by decide⟩, .zero, none, .none, .inl (by decide)⟩
      ?_).2 ⟨⟨.none, "256".toList, .none, by decide, by decide⟩, ?_, ?_⟩
    · simp [RgbText.channels, ChannelText.IsShort, ChannelText.zero, maxDigits]
    · simp [RgbText.channels]
    · decide

end CssValues.Color
