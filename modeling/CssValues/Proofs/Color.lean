import CssValues.Proofs.Color.Function
import CssValues.Proofs.Entries
import CssValues.Proofs.Note
import CssValues.Resolver

/-!
# Reading colours returns

A text is read as a colour or refused with a note, but for one way to fail: a channel of `rgb()` with
more digits than an integer may be written with (`Color.returns_attempt_iff`).
-/

namespace CssValues

namespace Color

/-- A channel of `rgb()` has more digits than an integer may be written with. -/
def HasLongChannel (t : Text) : Prop :=
  ∃ red green blue, splitRgb? t = some (red, green, blue)
    ∧ ∃ digits ∈ [red, green, blue], maxDigits < digits.length

variable {t : Text}

/-! ## The form of a function -/

theorem exists_cons_of_take {k : Nat} {w : Text} (h : Text.asciiLower (t.take k) = 'r' :: w)
    (hw : '(' ∈ w) : ∃ c more, t = c :: more ∧ c.toLower = 'r' ∧ '(' ∈ t := by
  have hparen : '(' ∈ t := by
    obtain ⟨c, hc, hlower⟩ := List.mem_map.mp (h ▸ List.mem_cons_of_mem 'r' hw)
    obtain rfl := Text.eq_of_toLower_eq hlower (by decide)
    exact List.mem_of_mem_take hc
  cases t with
  | nil => cases hparen
  | cons c more =>
    cases k with
    | zero => cases h
    | succ k => exact ⟨c, more, rfl, (List.cons.inj h).1, hparen⟩

/-- A colour in the form of a function starts with an `r` and has a parenthesis. -/
theorem exists_of_splitRgb? {channels : Text × Text × Text} (h : splitRgb? t = some channels) :
    ∃ c more, t.trim = c :: more ∧ c.toLower = 'r' ∧ '(' ∈ t.trim := by
  obtain ⟨rest, hopening, -⟩ := Option.bind_eq_some_iff.mp h
  unfold dropOpening? at hopening
  split at hopening
  · next hrgba => exact exists_cons_of_take hrgba (by decide)
  split at hopening
  · next hrgb => exact exists_cons_of_take hrgb (by decide)
  · cases hopening

/-- No name has a parenthesis. -/
theorem ofName?_eq_none (h : '(' ∈ t.trim) : ofName? t = none := by
  have hnames : ∀ w ∈ Entries.keys named, '(' ∉ w := by decide
  refine Entries.get?_eq_none_iff.mpr fun hmem => hnames _ hmem ?_
  exact Text.mem_lower h (by decide) (by decide)

theorem ofHex?_eq_none (h : '(' ∈ t.trim) : ofHex? t = none := by
  unfold ofHex?
  dsimp only
  rw [if_neg]
  rw [List.all_eq_true]
  intro hall
  have hhex : Text.isHexDigit '(' = false := by decide
  split at hall
  · next rest hrest =>
    rw [hrest] at h
    rw [hall '(' ((List.mem_cons.mp h).resolve_left (by decide))] at hhex
    cases hhex
  · rw [hall '(' h] at hhex
    cases hhex

/-! ## Reading -/

theorem readDigits_of_long {digits : Text} (h : maxDigits < digits.length) :
    readDigits digits = .error (.tooManyDigits digits.length) := if_pos h

theorem readDigits_of_short {digits : Text} (h : digits.length ≤ maxDigits) :
    readDigits digits = .ok (Text.ofDigits digits) := if_neg (not_lt.mpr h)

/-- Channels are read if none of them is too long, whatever they are. -/
theorem exists_mapM_readDigits_iff {channels : List Text} :
    (∃ ns, channels.mapM readDigits = .ok ns) ↔ ∀ digits ∈ channels, digits.length ≤ maxDigits := by
  induction channels with
  | nil => exact ⟨fun _ => nofun, fun _ => ⟨[], rfl⟩⟩
  | cons digits channels ih =>
    rw [List.mapM_cons, List.forall_mem_cons, ← ih]
    by_cases h : digits.length ≤ maxDigits
    · rw [readDigits_of_short h]
      cases channels.mapM readDigits with
      | ok ns => exact ⟨fun _ => ⟨h, ns, rfl⟩, fun _ => ⟨_, rfl⟩⟩
      | error f => exact ⟨by rintro ⟨_, ⟨⟩⟩, by rintro ⟨-, _, ⟨⟩⟩⟩
    · rw [readDigits_of_long (not_le.mp h)]
      exact ⟨by rintro ⟨_, ⟨⟩⟩, fun hall => absurd hall.1 h⟩

theorem exists_fault_of_hasLongChannel (h : HasLongChannel t) :
    ∃ f, ofRgb t = .error (.fault f) := by
  obtain ⟨red, green, blue, hsplit, digits, hmem, hlong⟩ := h
  unfold ofRgb
  rw [hsplit]
  dsimp only
  cases hread : [red, green, blue].mapM readDigits with
  | ok ns => exact absurd (exists_mapM_readDigits_iff.mp ⟨ns, hread⟩ digits hmem) (not_le.mpr hlong)
  | error f => exact ⟨f, rfl⟩

theorem hasLongChannel_of_fault {f : Fault} (h : ofRgb t = .error (.fault f)) :
    HasLongChannel t := by
  unfold ofRgb at h
  split at h
  · cases h
  next red green blue hsplit =>
  split at h
  · next hread =>
    by_contra hshort
    have hall : ∀ digits ∈ [red, green, blue], digits.length ≤ maxDigits := fun digits hmem =>
      not_lt.mp fun hlong => hshort ⟨red, green, blue, hsplit, digits, hmem, hlong⟩
    obtain ⟨ns, hns⟩ := exists_mapM_readDigits_iff.mpr hall
    rw [hns] at hread
    cases hread
  · split at h
    · cases h
    · split at h <;> cases h

/-- What has a parenthesis can only be a colour in the form of a function. -/
theorem read_eq_ofRgb (h : '(' ∈ t.trim) : read t = ofRgb t := by
  have hblank : Text.isBlankText t = false := by
    obtain ⟨c, hc, hblank⟩ := Text.exists_of_trim_ne_nil (List.ne_nil_of_mem h)
    exact List.all_eq_false.mpr ⟨c, hc, by simp [hblank]⟩
  unfold read
  rw [hblank, ofName?_eq_none h, ofHex?_eq_none h]
  rfl

theorem ofRgb_eq_of_read {f : Fault} (h : read t = .error (.fault f)) :
    ofRgb t = .error (.fault f) := by
  unfold read at h
  split at h
  · cases h
  split at h
  · cases h
  split at h
  · cases h
  · exact h

/-- **Colours.** Reading a colour fails only at a channel that is too long. -/
theorem returns_attempt_iff (t : Text) : (attempt t).Returns ↔ ¬HasLongChannel t := by
  constructor
  · rintro ⟨o, ho⟩ hlong
    obtain ⟨f, hf⟩ := exists_fault_of_hasLongChannel hlong
    obtain ⟨_, _, _, hsplit, -⟩ := hlong
    obtain ⟨_, _, -, -, hparen⟩ := exists_of_splitRgb? hsplit
    rw [attempt, read_eq_ofRgb hparen, hf] at ho
    cases ho
  · intro hshort
    unfold attempt
    split
    · exact Noted.returns_pure _
    · next f hf => exact absurd (hasLongChannel_of_fault (ofRgb_eq_of_read hf)) hshort
    · exact ⟨none, rfl⟩

/-! ## A channel of many digits -/

/-- Any row of digits can be the red channel. -/
theorem splitRgb?_digits {digits : Text} (hdigits : ∀ c ∈ digits, Text.isDigit c = true)
    (hne : digits ≠ []) :
    splitRgb? ("rgb(".toList ++ (digits ++ ",0,0)".toList)) = some (digits, ['0'], ['0']) := by
  have hsplit := RgbText.splitRgb?_text ⟨.none, ['r', 'g', 'b'],
    ⟨.none, digits, .none, hne, hdigits⟩, .zero, .zero, none, .none, .inl rfl⟩
  simpa [RgbText.text, RgbText.listText, RgbText.alphaText, ChannelText.text, ChannelText.zero,
    Text.Blanks.none] using hsplit

end Color

end CssValues
