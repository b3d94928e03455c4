import CssValues.Proofs.Color.AsciiForm
import CssValues.Proofs.Resolver.Transcription

/-!
# Values in ASCII

A value that resolves is not always spelled in ASCII: digits of any script are numbers, and a Kelvin
sign is a `k` in the name of a colour. These and blanks are all there is beyond ASCII, and written in
ASCII the value resolves to the same. Main result: `spelled_in_ascii`.
-/

namespace CssValues

open Text (HasPlain asciiForm hasPlain_of_isBlank hasPlain_of_isDigit isTranscription_plain kelvin)

variable {t : Text}

/-- A text of ASCII characters, or a calculation of ASCII characters and blanks. -/
def IsAsciiSpelling (t : Text) : Prop :=
  (∀ d ∈ t, d.toNat < 0x80) ∨ ∃ body, t = CalcSource.opening ++ body ++ [')']
    ∧ ∀ d ∈ body, d.toNat < 0x80 ∨ Text.isBlank d = true

/-- The other characters than digits and blanks are in ASCII. -/
theorem IsAsciiSpelling.ascii (h : IsAsciiSpelling t) {d : Char} (hd : d ∈ t)
    (hblank : Text.isBlank d = false) : d.toNat < 0x80 := by
  have hopening : ∀ d ∈ CalcSource.opening, d.toNat < 0x80 := by decide
  rcases h with hascii | ⟨body, rfl, hbody⟩
  · exact hascii d hd
  · rcases List.mem_append.mp hd with hd | hd
    · rcases List.mem_append.mp hd with hd | hd
      · exact hopening d hd
      · exact (hbody d hd).resolve_right (by rw [hblank]; decide)
    · exact List.mem_singleton.mp hd ▸ by decide

/-! ## Sizes -/

theorem ascii_of_isFigure {d : Char} (h : isFigure d = true) :
    Text.isDigit d = true ∨ d.toNat < 0x80 := by
  have hmark : ∀ d ∈ ['+', '-', '.', '%'], d.toNat < 0x80 := by decide
  simp only [isFigure, Bool.or_eq_true, Bool.and_eq_true, List.contains_iff_mem] at h
  rcases h with (hdigit | hletter) | hsign
  · exact .inl hdigit
  · have := (Text.printing_of_isLetter hletter.1.1).2
    exact .inr (by omega)
  · exact .inr (hmark d hsign)

namespace Spelled

theorem hasPlain (h : Spelled t) : ∀ d ∈ t, HasPlain d := by
  have hfigure {d : Char} (hd : isFigure d = true) : HasPlain d :=
    (ascii_of_isFigure hd).elim hasPlain_of_isDigit .inl
  have hopening : ∀ d ∈ CalcSource.opening, d.toNat < 0x80 := by decide
  cases h with
  | figures _ hfigures => exact fun d hd => hfigure (hfigures d hd)
  | calculation _ hbody =>
    intro d hd
    rcases List.mem_append.mp hd with hd | hd
    · rcases List.mem_append.mp hd with hd | hd
      · exact .inl (hopening d hd)
      · exact (hbody d hd).elim hfigure hasPlain_of_isBlank
    · exact .inl (List.mem_singleton.mp hd ▸ by decide)

/-- Only digits make the spelling one beyond ASCII. -/
theorem isAsciiSpelling_iff (h : Spelled t) :
    IsAsciiSpelling t ↔ ∀ d ∈ t, Text.isDigit d = true → d.toNat < 0x80 := by
  refine ⟨fun hspelling d hd hdigit => hspelling.ascii hd (Text.isBlank_of_isDigit hdigit), ?_⟩
  intro hdigits
  have hfigure {d : Char} (hd : d ∈ t) (hd' : isFigure d = true) : d.toNat < 0x80 :=
    (ascii_of_isFigure hd').elim (hdigits d hd) id
  cases h with
  | figures _ hfigures => exact .inl fun d hd => hfigure hd (hfigures d hd)
  | calculation _ hbody =>
    refine .inr ⟨_, rfl, fun d hd => (hbody d hd).imp_left (hfigure ?_)⟩
    exact List.mem_append_left _ (List.mem_append_right _ hd)

/-- In ASCII it is in ASCII. -/
theorem ascii_plain (h : Spelled t.trim) : ∀ d ∈ t.map Text.plain, d.toNat < 0x80 := by
  intro d hd
  obtain ⟨b, hb, rfl⟩ := List.mem_map.mp hd
  exact (Text.forall_of_trim (fun _ => hasPlain_of_isBlank) h.hasPlain b hb).ascii

end Spelled

theorem CalcSource.isValid_plain (t : Text) : isValid (t.map Text.plain) = isValid t := by
  have hopening : ∀ d ∈ opening, Text.digitValue? d = none ∧ d ≠ ' ' ∧ d.toNat < 0x80 := by decide
  refine Bool.eq_iff_iff.mpr ⟨?_, isValid_map isTranscription_plain (by decide)⟩
  exact isValid_of_map isTranscription_plain fun _ => Text.map_plain_eq hopening

theorem Resolver.spelled_of_calculation {c : Context} {n : Number} (h : calculation c t = .ok n) :
    Spelled t.trim := by
  obtain ⟨_, he, -⟩ := exists_calculation h
  exact CalcExpression.spelled_of_read he

/-! ## Main result -/

/-- **Beyond ASCII.** Digits of any script and blanks may be written in ASCII without a change to what a
text resolves to. A size or calculation that resolves is in ASCII then, and it was spelled in ASCII
before, blanks in a calculation apart, just if its digits were ASCII digits. A colour has Kelvin signs
beyond ASCII if it is written by name, digits and blanks if it is written in the form of a function, and
nothing if it is written as hexadecimal digits; its form in ASCII is the same colour. -/
theorem spelled_in_ascii (c : Context) (t : Text) :
    ((Resolver.attempt (Resolver.size c (t.map Text.plain))).result
        = (Resolver.attempt (Resolver.size c t)).result
      ∧ (Resolver.attempt (Resolver.calculation c (t.map Text.plain))).result
        = (Resolver.attempt (Resolver.calculation c t)).result)
    ∧ ((∃ r, (Resolver.attempt (Resolver.size c t)).result = .ok (some r))
        ∨ (∃ n, (Resolver.attempt (Resolver.calculation c t)).result = .ok (some n)) →
      (∀ d ∈ t.map Text.plain, d.toNat < 0x80)
      ∧ (IsAsciiSpelling t.trim ↔ ∀ d ∈ t.trim, Text.isDigit d = true → d.toNat < 0x80))
    ∧ ∀ color, (Color.attempt t).result = .ok (some color) →
      (∀ d ∈ t.trim, 0x7F < d.toNat → Color.ofName? t = some color ∧ d = kelvin
        ∨ Color.ofRgb t = .ok color ∧ (Text.isDigit d = true ∨ Text.isBlank d = true))
      ∧ (∀ d ∈ t.map asciiForm, d.toNat < 0x80)
      ∧ (Color.attempt (t.map asciiForm)).result = .ok (some color) := by
  have hvalid := CalcSource.isValid_plain t
  refine ⟨⟨Resolver.result_size_map isTranscription_plain hvalid,
    Resolver.result_calculation_map isTranscription_plain hvalid⟩, fun h => ?_, fun color h => ?_⟩
  · have hspelled : Spelled t.trim := by
      rcases h with ⟨r, hr⟩ | ⟨n, hn⟩
      · exact Resolver.spelled_of_size (Resolver.eq_of_toOption (Resolver.toOption_of_attempt hr))
      · exact Resolver.spelled_of_calculation
          (Resolver.eq_of_toOption (Resolver.toOption_of_attempt hn))
    exact ⟨hspelled.ascii_plain, hspelled.isAsciiSpelling_iff⟩
  · have hread := Color.attempt_eq_some_iff.mp h
    exact ⟨fun d => Color.beyond_of_read hread, Color.ascii_asciiForm hread,
      Color.attempt_eq_some_iff.mpr (Color.read_asciiForm hread)⟩

/-! ## Three pixels in Arabic-Indic digits, and pink with a Kelvin sign -/

theorem exists_size_arabic :
    ∃ r, (Resolver.attempt (Resolver.size .default "\u0663px".toList)).result = .ok (some r) := by
  have hsome : (Resolver.size .default "\u0663px".toList).toOption.isSome = true := by decide +kernel
  obtain ⟨r, hr⟩ := Option.isSome_iff_exists.mp hsome
  exact ⟨r, (Resolver.answers_size _ _).result_attempt.trans (congrArg Except.ok hr)⟩

theorem exists_calculation_arabic : ∃ n,
    (Resolver.attempt (Resolver.calculation .default "calc(\u0663px + 1px)".toList)).result
      = .ok (some n) := by
  have hsome : (Resolver.calculation .default "calc(\u0663px + 1px)".toList).toOption.isSome = true := by
    decide +kernel
  obtain ⟨n, hn⟩ := Option.isSome_iff_exists.mp hsome
  exact ⟨n, (Resolver.answers_calculation _ _).result_attempt.trans (congrArg Except.ok hn)⟩

theorem Color.attempt_kelvin :
    (Color.attempt "pin\u212A".toList).result = .ok (some (.ofLevels 255 192 203)) := by decide +kernel

/-- They resolve to what their forms in ASCII resolve to, and the size is not spelled in ASCII. -/
theorem spelled_in_ascii_arabic :
    (∃ r, (Resolver.attempt (Resolver.size .default "\u0663px".toList)).result = .ok (some r)
      ∧ (Resolver.attempt (Resolver.size .default "3px".toList)).result = .ok (some r)
      ∧ ¬IsAsciiSpelling (Text.trim "\u0663px".toList))
    ∧ (∃ n, (Resolver.attempt (Resolver.calculation .default "calc(\u0663px + 1px)".toList)).result
        = .ok (some n)
      ∧ (Resolver.attempt (Resolver.calculation .default "calc(3px + 1px)".toList)).result
        = .ok (some n))
    ∧ ∃ color, (Color.attempt "pin\u212A".toList).result = .ok (some color)
      ∧ (Color.attempt "pink".toList).result = .ok (some color) := by
  have hforms : "\u0663px".toList.map Text.plain = "3px".toList
      ∧ "calc(\u0663px + 1px)".toList.map Text.plain = "calc(3px + 1px)".toList
      ∧ "pin\u212A".toList.map asciiForm = "pink".toList := by
    decide +kernel
  have hdigits : ¬∀ d ∈ Text.trim "\u0663px".toList, Text.isDigit d = true → d.toNat < 0x80 := by
    decide +kernel
  obtain ⟨r, hr⟩ := exists_size_arabic
  obtain ⟨n, hn⟩ := exists_calculation_arabic
  obtain ⟨⟨hsize, -⟩, hspelling, -⟩ := spelled_in_ascii .default "\u0663px".toList
  obtain ⟨⟨-, hcalc⟩, -, -⟩ := spelled_in_ascii .default "calc(\u0663px + 1px)".toList
  obtain ⟨-, -, hcolor⟩ := (spelled_in_ascii .default "pin\u212A".toList).2.2 _ Color.attempt_kelvin
  rw [hforms.1] at hsize
  rw [hforms.2.1] at hcalc
  rw [hforms.2.2] at hcolor
  exact ⟨⟨r, hr, hsize.trans hr, mt (hspelling (.inl ⟨r, hr⟩)).2.mp hdigits⟩, ⟨n, hn, hcalc.trans hn⟩,
    ⟨_, Color.attempt_kelvin, hcolor⟩⟩

/-- So not only spellings in ASCII resolve. -/
theorem not_spelled_in_ascii :
    (¬∀ (c : Context) (t : Text) (r : Size),
      (Resolver.attempt (Resolver.size c t)).result = .ok (some r) → IsAsciiSpelling t.trim)
    ∧ (¬∀ (c : Context) (t : Text) (n : Number),
      (Resolver.attempt (Resolver.calculation c t)).result = .ok (some n) → IsAsciiSpelling t.trim)
    ∧ ¬∀ (t : Text) (color : Color),
      (Color.attempt t).result = .ok (some color) → IsAsciiSpelling t.trim := by
  have hbeyond {t : Text} {d : Char} (hd : d ∈ t) (h : Text.isBlank d = false ∧ ¬d.toNat < 0x80) :
      ¬IsAsciiSpelling t := fun hspelling => h.2 (hspelling.ascii hd h.1)
  obtain ⟨r, hr⟩ := exists_size_arabic
  obtain ⟨n, hn⟩ := exists_calculation_arabic
  refine ⟨fun h => ?_, fun h => ?_, fun h => ?_⟩
  · exact hbeyond (d := '\u0663') (by decide +kernel) (by decide +kernel) (h _ _ r hr)
  · exact hbeyond (d := '\u0663') (by decide +kernel) (by decide +kernel) (h _ _ n hn)
  · exact hbeyond (d := kelvin) (by decide +kernel) (by decide +kernel) (h _ _ Color.attempt_kelvin)

end CssValues
