import CssValues.Proofs.Color.Hex
import CssValues.Proofs.Color.Transcription
import CssValues.Proofs.Text.AsciiForm

/-!
# Colours in ASCII

What a colour has beyond ASCII are digits and blanks in the form of a function, and Kelvin signs in a
name (`Color.beyond_of_read`). In ASCII it is the same colour (`Color.read_asciiForm`).
-/

namespace CssValues.Color

open Text (HasPlain asciiForm forall_of_dropWhile hasPlain_of_isBlank hasPlain_of_isDigit kelvin)

variable {t rest : Text} {c : Color}

/-! ## Functions -/

/-- Behind blanks, a row of digits and blanks. -/
theorem hasPlain_of_row
    (hrest : ∀ d ∈ ((t.dropWhile Text.isBlank).dropWhile Text.isDigit).dropWhile Text.isBlank,
      HasPlain d) : ∀ d ∈ t, HasPlain d :=
  forall_of_dropWhile (fun _ => hasPlain_of_isBlank) <|
    forall_of_dropWhile (fun _ => hasPlain_of_isDigit) <|
      forall_of_dropWhile (fun _ => hasPlain_of_isBlank) hrest

theorem hasPlain_of_dropOpening? (h : dropOpening? t = some rest) (hrest : ∀ d ∈ rest, HasPlain d) :
    ∀ d ∈ t, HasPlain d := by
  have hletters {w : Text} (hw : ∀ d ∈ w, d.toNat < 0x80) {k : Nat}
      (hfront : Text.asciiLower (t.take k) = w) (hback : ∀ d ∈ t.drop k, HasPlain d) :
      ∀ d ∈ t, HasPlain d := by
    intro d hd
    rw [← List.take_append_drop k t] at hd
    refine (List.mem_append.mp hd).elim (fun h => .inl ?_) (hback d)
    have hlower : d.toLower.toNat < 0x80 := hw _ (by
      rw [← hfront]
      exact List.mem_map_of_mem h)
    rcases Text.toLower_cases d with heq | ⟨-, hhigh, -⟩
    · rwa [heq] at hlower
    · omega
  unfold dropOpening? at h
  split at h
  · next hlong =>
    cases h
    exact hletters (by decide) hlong hrest
  split at h
  · next hshort =>
    cases h
    exact hletters (by decide) hshort hrest
  · cases h

theorem hasPlain_of_splitDigits? {digits : Text} (h : splitDigits? t = some (digits, rest))
    (hrest : ∀ d ∈ rest, HasPlain d) : ∀ d ∈ t, HasPlain d := by
  unfold splitDigits? at h
  dsimp only at h
  split at h
  · cases h
  · cases h
    exact hasPlain_of_row hrest

theorem hasPlain_of_dropComma? (h : dropComma? t = some rest) (hrest : ∀ d ∈ rest, HasPlain d) :
    ∀ d ∈ t, HasPlain d := by
  unfold dropComma? at h
  split at h
  · cases h
    exact List.forall_mem_cons.mpr ⟨.inl (by decide), hrest⟩
  · cases h

theorem hasPlain_close : ∀ d ∈ [')'], HasPlain d := by
  unfold HasPlain
  decide

theorem hasPlain_of_isAlphaEnd (h : isAlphaEnd t = true) : ∀ d ∈ t, HasPlain d := by
  unfold isAlphaEnd at h
  dsimp only at h
  split at h
  · next more hmore =>
    have hclose := of_decide_eq_true (Bool.and_eq_true_iff.mp h).2
    refine forall_of_dropWhile (fun _ => hasPlain_of_isBlank) <|
      forall_of_dropWhile (fun _ => hasPlain_of_isDigit) ?_
    rw [hmore]
    refine List.forall_mem_cons.mpr ⟨.inl (by decide), ?_⟩
    refine forall_of_dropWhile (fun _ => hasPlain_of_isDigit) <|
      forall_of_dropWhile (fun _ => hasPlain_of_isBlank) ?_
    rw [hclose]
    exact hasPlain_close
  · refine hasPlain_of_row ?_
    rw [of_decide_eq_true (Bool.and_eq_true_iff.mp h).2]
    exact hasPlain_close

theorem hasPlain_of_isListEnd (h : isListEnd t = true) : ∀ d ∈ t, HasPlain d := by
  unfold isListEnd at h
  split at h
  · next hcomma => exact hasPlain_of_dropComma? hcomma (hasPlain_of_isAlphaEnd h)
  · rw [of_decide_eq_true h]
    exact hasPlain_close

/-- The form of a function has characters of ASCII, digits and blanks. -/
theorem hasPlain_of_splitRgb? {channels : Text × Text × Text} (h : splitRgb? t = some channels) :
    ∀ d ∈ t.trim, HasPlain d := by
  unfold splitRgb? at h
  obtain ⟨list, hopening, h⟩ := Option.bind_eq_some_iff.mp h
  obtain ⟨⟨red, rest⟩, hred, h⟩ := Option.bind_eq_some_iff.mp h
  obtain ⟨more, hcomma, h⟩ := Option.bind_eq_some_iff.mp h
  obtain ⟨⟨green, rest'⟩, hgreen, h⟩ := Option.bind_eq_some_iff.mp h
  obtain ⟨more', hcomma', h⟩ := Option.bind_eq_some_iff.mp h
  obtain ⟨⟨blue, last⟩, hblue, h⟩ := Option.bind_eq_some_iff.mp h
  have hend : isListEnd last = true := by
    by_contra hnone
    simp only [hnone] at h
    cases h
  exact hasPlain_of_dropOpening? hopening <| hasPlain_of_splitDigits? hred <|
    hasPlain_of_dropComma? hcomma <| hasPlain_of_splitDigits? hgreen <|
    hasPlain_of_dropComma? hcomma' <| hasPlain_of_splitDigits? hblue <| hasPlain_of_isListEnd hend

theorem exists_of_ofRgb (h : ofRgb t = .ok c) : ∃ channels, splitRgb? t = some channels := by
  unfold ofRgb at h
  cases hsplit : splitRgb? t with
  | none =>
    rw [hsplit] at h
    cases h
  | some channels => exact ⟨channels, rfl⟩

/-! ## Names and hexadecimal digits -/

theorem named_ascii : ∀ w ∈ Entries.keys named, ∀ d ∈ w, d.toNat < 0x80 := by decide

/-- A name is in ASCII but for Kelvin signs. -/
theorem ascii_of_ofName? (h : ofName? t = some c) : ∀ d ∈ t.trim, d.toNat < 0x80 ∨ d = kelvin := by
  have hname : Text.lower t.trim ∈ Entries.keys named := by
    rw [← Entries.isSome_get?_iff, ← ofName?, h]
    rfl
  have hsmall := (Text.lower_eq_iff (named_ascii _ hname) t.trim).mp rfl
  intro d hd
  have hascii : (Text.small d).toNat < 0x80 :=
    named_ascii _ hname _ (hsmall ▸ List.mem_map_of_mem hd)
  by_cases hkelvin : d = kelvin
  · exact .inr hkelvin
  · by_contra hbeyond
    have := Text.beyond_small (c := d) (by omega) hkelvin
    omega

theorem ascii_of_ofHex? (h : ofHex? t = some c) : ∀ d ∈ t.trim, d.toNat < 0x80 := by
  intro d hd
  rcases mem_of_ofHex? h d hd with rfl | hdigit
  · decide
  · have := Text.isHexDigit_iff.mp hdigit
    omega

theorem ofName?_asciiForm (h : ∀ d ∈ t.trim, d.toNat < 0x80 ∨ d = kelvin) :
    ofName? (t.map asciiForm) = ofName? t := by
  have hsmall : (t.trim.map asciiForm).map Text.small = t.trim.map Text.small := by
    rw [List.map_map]
    exact List.map_congr_left fun d hd => Text.small_asciiForm (h d hd)
  have htrim : Text.trim (t.map asciiForm) = t.trim.map asciiForm :=
    Text.trimWhere_map Text.isBlank_asciiForm t
  rw [ofName?, ofName?, htrim]
  refine Entries.get?_congr fun w hw => ?_
  rw [Text.lower_eq_iff (named_ascii w hw), Text.lower_eq_iff (named_ascii w hw), hsmall]

theorem ofHex?_asciiForm (h : ∀ d ∈ t.trim, d.toNat < 0x80) :
    ofHex? (t.map asciiForm) = ofHex? t := by
  have hsame : t.trim.map asciiForm = t.trim := by
    refine (List.map_congr_left fun d hd => ?_).trans (List.map_id _)
    have hkelvin : d ≠ kelvin := by
      rintro rfl
      exact absurd (h _ hd) (by decide)
    rw [Text.asciiForm_of_ne hkelvin, Text.plain_of_ascii (h d hd)]
    rfl
  have htrim : Text.trim (t.map asciiForm) = t.trim :=
    (Text.trimWhere_map Text.isBlank_asciiForm t).trans hsame
  rw [ofHex?, ofHex?, htrim]

/-! ## Colours -/

/-- The forms of a colour that was read. -/
theorem forms_of_read (h : read t = .ok c) :
    ofName? t = some c ∨ ofHex? t = some c ∨ ofRgb t = .ok c := by
  unfold read at h
  split at h
  · cases h
  split at h
  · next hname => cases h; exact .inl hname
  split at h
  · next hhex => cases h; exact .inr (.inl hhex)
  · exact .inr (.inr h)

theorem attempt_eq_some_iff : (Color.attempt t).result = .ok (some c) ↔ read t = .ok c := by
  unfold Color.attempt
  constructor
  · intro h
    split at h
    · next d hread =>
      cases h
      exact hread
    · cases h
    · cases h
  · intro h
    rw [h]
    rfl

/-- **Beyond ASCII** there are Kelvin signs in a name, digits and blanks in a function. -/
theorem beyond_of_read (h : read t = .ok c) {d : Char} (hd : d ∈ t.trim) (hbeyond : 0x7F < d.toNat) :
    ofName? t = some c ∧ d = kelvin
      ∨ ofRgb t = .ok c ∧ (Text.isDigit d = true ∨ Text.isBlank d = true) := by
  rcases forms_of_read h with hname | hhex | hrgb
  · exact .inl ⟨hname, (ascii_of_ofName? hname d hd).resolve_left (by omega)⟩
  · have := ascii_of_ofHex? hhex d hd
    omega
  · obtain ⟨_, hsplit⟩ := exists_of_ofRgb hrgb
    exact .inr ⟨hrgb, (hasPlain_of_splitRgb? hsplit d hd).resolve_left (by omega)⟩

/-- The form in ASCII is the same colour. -/
theorem read_asciiForm (h : read t = .ok c) : read (t.map asciiForm) = .ok c := by
  rcases forms_of_read h with hname | hhex | hrgb
  · have hname' := (ofName?_asciiForm (ascii_of_ofName? hname)).trans hname
    have hblank : Text.isBlankText (t.map asciiForm) = Text.isBlankText t :=
      Text.all_map Text.isBlank_asciiForm t
    have hsome : Text.isBlankText t = false := by
      rw [← Bool.not_eq_true]
      intro hall
      rw [read, if_pos hall] at h
      cases h
    rw [read, hblank, hsome, hname']
    rfl
  · exact read_of_ofHex? ((ofHex?_asciiForm (ascii_of_ofHex? hhex)).trans hhex)
  · obtain ⟨_, hsplit⟩ := exists_of_ofRgb hrgb
    obtain ⟨_, _, -, -, hparen⟩ := exists_of_splitRgb? hsplit
    have hplain := hasPlain_of_splitRgb? hsplit
    have hmap : t.map asciiForm = t.map Text.plain :=
      Text.map_asciiForm (Text.forall_of_trim (fun _ => hasPlain_of_isBlank) hplain)
    have hparen' : '(' ∈ Text.trim (t.map Text.plain) := by
      rw [Text.isTranscription_plain.trim_map]
      exact List.mem_map_of_mem (f := Text.plain) hparen
    rw [hmap, read_eq_ofRgb hparen', ofRgb_map Text.isTranscription_plain, hrgb]

/-- The form in ASCII is in ASCII. -/
theorem ascii_asciiForm (h : read t = .ok c) : ∀ d ∈ t.map asciiForm, d.toNat < 0x80 := by
  have hform : ∀ d ∈ t.trim, HasPlain d ∨ d = kelvin := by
    intro d hd
    by_cases hascii : d.toNat < 0x80
    · exact .inl (.inl hascii)
    · rcases beyond_of_read h hd (by omega) with ⟨-, hkelvin⟩ | ⟨-, hother⟩
      · exact .inr hkelvin
      · exact .inl (.inr hother)
  intro d hd
  obtain ⟨b, hb, rfl⟩ := List.mem_map.mp hd
  exact Text.asciiForm_ascii (Text.forall_of_trim (fun _ h => .inl (hasPlain_of_isBlank h)) hform b hb)

end CssValues.Color
