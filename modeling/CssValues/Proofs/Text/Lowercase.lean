import CssValues.Text.Lowercase
import CssValues.Unit

/-!
# Lower case of ASCII texts

On ASCII characters full lower-casing is the map of `A` to `Z` onto `a` to `z`.
-/

namespace CssValues.Text

/-- Of the runs of the table, only the first has ASCII characters. -/
theorem find?_lowerRuns_ascii {n : Nat} (h : n < 0x80) :
    lowerRuns.find? (·.has n) = (lowerRuns.take 1).find? (·.has n) := by
  have habove : ∀ run ∈ lowerRuns.drop 1, 0x80 ≤ run.first := by decide +kernel
  have hrest : (lowerRuns.drop 1).find? (·.has n) = none := by
    refine List.find?_eq_none.mpr fun run hrun => ?_
    have hfirst : ¬run.first ≤ n := by have := habove run hrun; omega
    simp [CaseRun.has, hfirst]
  calc lowerRuns.find? (·.has n)
      = (lowerRuns.take 1 ++ lowerRuns.drop 1).find? (·.has n) := by rw [List.take_append_drop]
    _ = (lowerRuns.take 1).find? (·.has n) := by rw [List.find?_append, hrest, Option.or_none]

theorem lowerChar_ascii {c : Char} (h : c.toNat < 0x80) : lowerChar c = [c.toLower] := by
  have hall : ∀ n < 0x80, (((lowerRuns.take 1).find? (·.has n)).elim (Char.ofNat n) fun run =>
      Char.ofNat ((n : Int) + run.shift).toNat) = (Char.ofNat n).toLower := by
    decide
  have hlower := hall c.toNat h
  rw [Char.ofNat_toNat] at hlower
  rw [lowerChar, if_neg (by omega), find?_lowerRuns_ascii h, ← hlower]
  cases (lowerRuns.take 1).find? (·.has c.toNat) <;> rfl

/-- Lower-casing moves the capital letters and nothing else. -/
theorem toLower_cases (c : Char) : c.toLower = c
    ∨ (0x41 ≤ c.toNat ∧ c.toNat ≤ 0x5A ∧ c.toLower.toNat = c.toNat + 32) := by
  unfold Char.toLower
  split
  · next hupper =>
    have hlow : 0x41 ≤ c.val.toNat := UInt32.le_iff_toNat_le.mp hupper.1
    have hhigh : c.val.toNat ≤ 0x5A := UInt32.le_iff_toNat_le.mp hupper.2
    refine .inr ⟨hlow, hhigh, ?_⟩
    show (c.val + ('a'.val - 'A'.val)).toNat = c.val.toNat + 32
    have hsum : (c.val + ('a'.val - 'A'.val)).toNat = (c.val.toNat + 32) % 2 ^ 32 :=
      UInt32.toNat_add _ _
    omega
  · exact .inl rfl

/-- Only the two forms of `u` are `u` in lower case. -/
theorem eq_of_toLower_eq_u {c : Char} (h : c.toLower = 'u') : c = 'u' ∨ c = 'U' := by
  rcases toLower_cases c with heq | ⟨-, -, hcode⟩
  · exact .inl (heq ▸ h)
  · rw [h] at hcode
    have hsmall : 'u'.toNat = 'U'.toNat + 32 := by decide
    exact .inr (Char.toNat_inj.mp (by omega))

/-- Only letters become letters in lower case. -/
theorem eq_of_toLower_eq {c d : Char} (h : c.toLower = d) (hd : d.toNat < 0x61) : c = d := by
  rcases toLower_cases c with heq | ⟨hlow, -, hcode⟩
  · exact heq ▸ h
  · rw [h] at hcode
    omega

theorem lowerAfter_cons_ascii {c : Char} (h : c.toNat < 0x80) (before t : Text) :
    lowerAfter before (c :: t) = c.toLower :: lowerAfter (c :: before) t := by
  have hsigma : c ≠ 'Σ' := by
    rintro rfl
    exact absurd h (by decide)
  rw [lowerAfter, if_neg hsigma, lowerChar_ascii h]
  rfl

theorem lower_ascii {t : Text} (h : ∀ c ∈ t, c.toNat < 0x80) : lower t = asciiLower t := by
  suffices hall : ∀ before, lowerAfter before t = asciiLower t from hall []
  induction t with
  | nil => intro _; rfl
  | cons c t ih =>
    intro before
    rw [lowerAfter_cons_ascii (h c List.mem_cons_self),
      ih (fun d hd => h d (List.mem_cons_of_mem _ hd))]
    rfl

theorem lower_eq_self {t : Text} (hascii : ∀ c ∈ t, c.toNat < 0x80) (h : asciiLower t = t) :
    lower t = t := (lower_ascii hascii).trans h

/-- A character that is its own lower case stays. -/
theorem mem_lower {t : Text} {c : Char} (hc : c ∈ t) (hascii : c.toNat < 0x80)
    (hsame : c.toLower = c) : c ∈ lower t := by
  suffices hall : ∀ before, c ∈ lowerAfter before t from hall []
  induction t with
  | nil => cases hc
  | cons d t ih =>
    intro before
    rcases List.mem_cons.mp hc with rfl | hc
    · rw [lowerAfter_cons_ascii hascii, hsame]
      exact List.mem_cons_self
    · exact List.mem_append_right _ (ih hc _)

/-! ## Letters -/

theorem isLetter_iff {c : Char} : isLetter c = true
    ↔ 97 ≤ c.toNat ∧ c.toNat ≤ 122 ∨ 65 ≤ c.toNat ∧ c.toNat ≤ 90 := by
  simp only [isLetter, Bool.or_eq_true, Bool.and_eq_true, decide_eq_true_eq, Char.le_def,
    UInt32.le_iff_toNat_le]
  exact Iff.rfl

theorem printing_of_isLetter {c : Char} (h : isLetter c = true) :
    0x20 < c.toNat ∧ c.toNat < 0x7F := by
  have := isLetter_iff.mp h
  omega

theorem isLetter_of_toLower {c : Char} (h : isLetter c.toLower = true) : isLetter c = true := by
  rcases toLower_cases c with heq | ⟨hlow, hhigh, -⟩
  · rwa [heq] at h
  · rw [isLetter_iff]
    omega

theorem lower_of_letters {t : Text} (h : t.all isLetter = true) : lower t = asciiLower t := by
  refine lower_ascii fun c hc => ?_
  have := printing_of_isLetter (List.all_eq_true.mp h c hc)
  omega

end CssValues.Text

namespace CssValues

/-- Every keyword starts with a letter. -/
theorem isNonNumericKeyword_eq_false {t r : Text} {c : Char} (hlower : Text.lower t = c :: r)
    (hc : Text.isLetter c = false) : isNonNumericKeyword t = false := by
  have hfirst : ∀ w ∈ nonNumericKeywords, (w.head?.all Text.isLetter) = true := by decide
  rw [isNonNumericKeyword, hlower, ← Bool.not_eq_true, List.contains_iff_mem]
  intro hmem
  have hletter : Text.isLetter c = true := hfirst _ hmem
  rw [hc] at hletter
  cases hletter

end CssValues
