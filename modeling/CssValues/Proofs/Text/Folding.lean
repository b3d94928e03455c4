import CssValues.Entries
import CssValues.Proofs.Quantity
import CssValues.Proofs.Text.Casing
import CssValues.Proofs.Text.Transcription

/-!
# Small letters

A text in lower case is a word of ASCII characters just if each of its characters becomes the one in the
word (`Text.lower_eq_iff`). The Kelvin sign is the only character beyond ASCII that becomes an ASCII
character. Writing `a` to `z` for `A` to `Z` is a transcription (`Text.isTranscription_toLower`).
-/

namespace CssValues

namespace Text

/-! ## Words in lower case -/

/-- The Kelvin sign, a capital K beyond ASCII. -/
def kelvin : Char := Char.ofNat 0x212A

/-- What a character becomes in a word of ASCII characters. -/
def small (c : Char) : Char := if c = kelvin then 'k' else c.toLower

theorem small_of_ne {c : Char} (h : c ≠ kelvin) : small c = c.toLower := if_neg h

theorem toLower_toLower (c : Char) : c.toLower.toLower = c.toLower := by
  rcases toLower_cases c with heq | ⟨hlow, hhigh, hcode⟩
  · rw [heq, heq]
  · exact (toLower_cases c.toLower).elim id fun ⟨_, _, _⟩ => by omega

theorem small_toLower (c : Char) : small c.toLower = small c := by
  by_cases h : c = kelvin
  · rw [h]
    rfl
  · rcases toLower_cases c with heq | ⟨-, hhigh, hcode⟩
    · rw [heq]
    · have hlower : c.toLower ≠ kelvin := by
        intro heq
        have hkelvin : kelvin.toNat = 0x212A := by decide
        rw [heq, hkelvin] at hcode
        omega
      rw [small_of_ne hlower, small_of_ne h, toLower_toLower]

/-- A character beyond ASCII stays there, the Kelvin sign apart. -/
theorem beyond_small {c : Char} (h : 0x7F < c.toNat) (hkelvin : c ≠ kelvin) :
    0x7F < (small c).toNat := by
  rw [small_of_ne hkelvin]
  rcases toLower_cases c with heq | ⟨-, hhigh, -⟩
  · rwa [heq]
  · omega

/-- Of the runs of the table beyond ASCII, only that of the Kelvin sign goes to ASCII. -/
theorem beyond_image {r : CaseRun} (hr : r ∈ lowerRuns) {n : Nat} (hn : r.has n = true)
    (hascii : 0x7F < n) (hkelvin : n ≠ 0x212A) : 0x7F < (Char.ofNat (r.image n)).toNat := by
  have hall : (lowerRuns.all fun r => Nat.blt r.last 0x80
      || (r.first == 0x212A && r.last == 0x212A) || Nat.ble 0x80 (r.image r.first)) = true := by
    decide
  have hrun := List.all_eq_true.mp hall r hr
  simp only [Bool.and_eq_true, Bool.or_eq_true, Nat.ble_eq, Nat.blt_eq, beq_iff_eq] at hrun
  obtain ⟨⟨hfirst, hlast⟩, -⟩ := CaseRun.has_iff.mp hn
  have himage : 0x80 ≤ r.image n := by
    rcases hrun with (hrun | hrun) | hrun
    · omega
    · omega
    · unfold CaseRun.image at hrun ⊢
      omega
  rw [toNat_ofNat_image hr hn]
  omega

/-- **Step.** A character in lower case is its small form, or both go beyond ASCII. -/
theorem lowered_small (before rest : Text) (c : Char) : lowered before rest c = [small c]
    ∨ (∃ d ∈ lowered before rest c, 0x7F < d.toNat) ∧ 0x7F < (small c).toNat := by
  by_cases hascii : c.toNat < 0x80
  · have hsigma : c ≠ 'Σ' := by
      rintro rfl
      exact absurd hascii (by decide)
    have hkelvin : c ≠ kelvin := by
      rintro rfl
      exact absurd hascii (by decide)
    rw [lowered, if_neg hsigma, lowerChar_ascii hascii, small_of_ne hkelvin]
    exact .inl rfl
  by_cases hkelvin : c = kelvin
  · have hk : lowerChar kelvin = ['k'] := by decide
    rw [hkelvin, lowered, if_neg (by decide), hk]
    exact .inl rfl
  have hbeyond : 0x7F < c.toNat := by omega
  refine .inr ⟨?_, beyond_small hbeyond hkelvin⟩
  rcases lowered_cases before rest c with heq | heq | heq
  · exact ⟨'ς', by rw [heq]; exact List.mem_singleton_self _, by decide⟩
  · exact ⟨'σ', by rw [heq]; exact List.mem_singleton_self _, by decide⟩
  · rw [heq]
    rcases lowerChar_cases c with ⟨-, hdotted⟩ | ⟨r, hr, hhas, himage⟩ | hself
    · exact ⟨Char.ofNat 0x307, by rw [hdotted]; decide, by decide⟩
    · have hcode : c.toNat ≠ 0x212A := fun h => hkelvin (by rw [← Char.ofNat_toNat c, h]; rfl)
      exact ⟨_, by rw [himage]; exact List.mem_singleton_self _, beyond_image hr hhas hbeyond hcode⟩
    · exact ⟨c, by rw [hself]; exact List.mem_singleton_self _, hbeyond⟩

/-- **Words.** Lower-casing gives a word of ASCII characters just if the small forms are its
characters. -/
theorem lower_eq_iff {w : Text} (hw : ∀ d ∈ w, d.toNat < 0x80) (t : Text) :
    lower t = w ↔ t.map small = w := by
  suffices hall : ∀ before, lowerAfter before t = w ↔ t.map small = w from hall []
  induction t generalizing w with
  | nil => exact fun _ => Iff.rfl
  | cons c t ih =>
    intro before
    rw [lowerAfter_cons, List.map_cons]
    rcases lowered_small before t c with heq | ⟨⟨d, hd, hbeyond⟩, hsmall⟩
    · rw [heq, List.singleton_append]
      cases w with
      | nil => exact iff_of_false nofun nofun
      | cons d w =>
        rw [List.cons.injEq, List.cons.injEq, ih (List.forall_mem_cons.mp hw).2]
    · refine iff_of_false (fun h => ?_) fun h => ?_
      · have := hw d (h ▸ List.mem_append_left _ hd)
        omega
      · have := hw (small c) (h ▸ List.mem_cons_self)
        omega

/-- A word without `k` needs no Kelvin sign. -/
theorem lower_eq_iff_asciiLower {w : Text} (hw : ∀ d ∈ w, d.toNat < 0x80) (hk : 'k' ∉ w) (t : Text) :
    lower t = w ↔ asciiLower t = w := by
  rw [lower_eq_iff hw]
  induction t generalizing w with
  | nil => exact Iff.rfl
  | cons c t ih =>
    cases w with
    | nil => exact iff_of_false nofun nofun
    | cons d w =>
      obtain ⟨hd, hrest⟩ := List.forall_mem_cons.mp hw
      obtain ⟨hne, hkrest⟩ := not_or.mp (mt List.mem_cons.mpr hk)
      have htail : t.map small = w ↔ t.map Char.toLower = w := ih hrest hkrest
      have hfirst : small c = d ↔ c.toLower = d := by
        by_cases h : c = kelvin
        · rw [h]
          refine iff_of_false (fun heq => hne heq) fun heq => ?_
          rw [← heq] at hd
          exact absurd hd (by decide)
        · rw [small_of_ne h]
      simp only [asciiLower, List.map_cons, List.cons.injEq, hfirst, htail]

/-- Words do not depend on the case of ASCII letters. -/
theorem lower_asciiLower_eq_iff {w : Text} (hw : ∀ d ∈ w, d.toNat < 0x80) (t : Text) :
    lower (asciiLower t) = w ↔ lower t = w := by
  rw [lower_eq_iff hw, lower_eq_iff hw, asciiLower, List.map_map,
    show small ∘ Char.toLower = small from funext small_toLower]

/-! ## Letters in the other case -/

theorem isLetter_toLower (c : Char) : isLetter c.toLower = isLetter c := by
  rcases toLower_cases c with heq | ⟨hlow, hhigh, hcode⟩
  · rw [heq]
  · have hsmall : isLetter c.toLower = true := isLetter_iff.mpr (by omega)
    have hcapital : isLetter c = true := isLetter_iff.mpr (by omega)
    rw [hsmall, hcapital]

/-- What holds of the letters in ASCII holds of all of them. -/
theorem forall_isLetter {p : Char → Prop}
    (h : ∀ n < 0x80, isLetter (Char.ofNat n) = true → p (Char.ofNat n)) {c : Char}
    (hc : isLetter c = true) : p c := by
  have hcode := isLetter_iff.mp hc
  have hp := h c.toNat (by omega)
  rw [Char.ofNat_toNat] at hp
  exact hp hc

/-- A function with one value for all letters has that value also in lower case. -/
theorem toLower_congr {α : Type} {g : Char → α} {a : α} (h : ∀ c, isLetter c = true → g c = a)
    (c : Char) : g c.toLower = g c := by
  cases hc : isLetter c with
  | true => rw [h c hc, h _ ((isLetter_toLower c).trans hc)]
  | false => rw [toLower_eq_self hc]

/-- A character that is no letter is the lower case of itself only. -/
theorem toLower_eq_iff {c d : Char} (hd : isLetter d = false) : c.toLower = d ↔ c = d := by
  refine ⟨fun h => ?_, fun h => ?_⟩
  · have hc : isLetter c = false := by rw [← isLetter_toLower, h, hd]
    rwa [toLower_eq_self hc] at h
  · rw [h, toLower_eq_self hd]

theorem digitValue?_of_isLetter {c : Char} (h : isLetter c = true) : digitValue? c = none := by
  have hdigit := (of_isLetter h).1
  rwa [isDigit, Option.isSome_eq_false_iff, Option.isNone_iff_eq_none] at hdigit

/-- Writing `a` to `z` for `A` to `Z`. -/
theorem isTranscription_toLower : IsTranscription Char.toLower where
  digit := toLower_congr fun _ => digitValue?_of_isLetter
  blank := toLower_congr fun c hc =>
    isBlank_of_printing (printing_of_isLetter hc).1 (printing_of_isLetter hc).2
  white := toLower_congr fun c hc =>
    isWhiteSpace_of_printing (printing_of_isLetter hc).1 (printing_of_isLetter hc).2
  letter := isLetter_toLower
  fold c _ := toLower_toLower c
  space := rfl
  mark c d hd := by
    have hmark : ∀ d ∈ marks, isLetter d = false := by decide
    exact toLower_eq_iff (hmark d hd)

theorem asciiLower_cons (c : Char) (t : Text) : asciiLower (c :: t) = c.toLower :: asciiLower t := rfl

theorem asciiLower_append (s t : Text) : asciiLower (s ++ t) = asciiLower s ++ asciiLower t :=
  List.map_append

/-- What has no letters has no case. -/
theorem asciiLower_eq_self {t : Text} (h : ∀ c ∈ t, isLetter c = false) : asciiLower t = t :=
  (List.map_congr_left fun c hc => toLower_eq_self (h c hc)).trans (List.map_id t)

theorem asciiLower_asciiLower (t : Text) : asciiLower (asciiLower t) = asciiLower t := by
  rw [asciiLower, asciiLower, List.map_map]
  exact congrArg (t.map ·) (funext toLower_toLower)

end Text

/-! ## Keywords -/

/-- Keywords are told by their ASCII letters. -/
theorem isNonNumericKeyword_eq (t : Text) :
    isNonNumericKeyword t = nonNumericKeywords.contains (Text.asciiLower t) := by
  have hwords : ∀ w ∈ nonNumericKeywords, (∀ d ∈ w, d.toNat < 0x80) ∧ 'k' ∉ w := by decide
  rw [Bool.eq_iff_iff, isNonNumericKeyword, List.contains_iff_mem, List.contains_iff_mem]
  refine ⟨fun h => ?_, fun h => ?_⟩
  · obtain ⟨hascii, hk⟩ := hwords _ h
    rwa [(Text.lower_eq_iff_asciiLower hascii hk t).mp rfl]
  · obtain ⟨hascii, hk⟩ := hwords _ h
    rwa [(Text.lower_eq_iff_asciiLower hascii hk t).mpr rfl]

theorem Text.IsTranscription.isNonNumericKeyword_map {f : Char → Char} (hf : IsTranscription f)
    (t : Text) : isNonNumericKeyword (t.map f) = isNonNumericKeyword t := by
  have hwords : ∀ w ∈ nonNumericKeywords, ∀ d ∈ w, isLetter d = true ∨ d ∈ marks := by decide
  rw [Bool.eq_iff_iff, isNonNumericKeyword_eq, isNonNumericKeyword_eq, List.contains_iff_mem,
    List.contains_iff_mem]
  refine ⟨fun h => ?_, fun h => ?_⟩
  · rwa [(hf.asciiLower_eq_iff (hwords _ h) t).mp rfl]
  · rwa [(hf.asciiLower_eq_iff (hwords _ h) t).mpr rfl]

end CssValues
