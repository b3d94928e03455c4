import CssValues.Proofs.Text.Casing
import CssValues.Proofs.Token.Simple
import CssValues.Style.Basic

/-!
# Names in lower case

Lower-casing makes letters of letters, so a name that needs no escapes needs none in lower case
(`Token.IsName.lower`), and none as a property (`Token.IsName.propertyName`).
-/

namespace CssValues

namespace Text

/-- Every run of the table goes to small letters or out of ASCII. -/
theorem isNameStart_image {r : CaseRun} (hr : r ∈ lowerRuns) {n : Nat} (hn : r.has n = true) :
    Token.isNameStart (Char.ofNat (r.image n)) = true := by
  have hall : (lowerRuns.all fun r => Nat.ble 0x61 (r.image r.first)
      && (Nat.ble (r.image r.last) 0x7A || Nat.ble 0x80 (r.image r.first))) = true := by
    decide
  have hrun := List.all_eq_true.mp hall r hr
  simp only [Bool.and_eq_true, Bool.or_eq_true, Nat.ble_eq] at hrun
  obtain ⟨⟨hfirst, hlast⟩, -⟩ := CaseRun.has_iff.mp hn
  have hbounds : r.image r.first ≤ r.image n ∧ r.image n ≤ r.image r.last := by
    unfold CaseRun.image
    omega
  rw [Token.isNameStart, Bool.or_eq_true, Bool.or_eq_true, isLetter_iff, Token.isNonAscii,
    decide_eq_true_eq, toNat_ofNat_image hr hn]
  omega

/-- What a character becomes in lower case: itself, or characters that start names. -/
theorem lowered_eq_or (before rest : Text) (c : Char) : lowered before rest c = [c]
    ∨ ∀ d ∈ lowered before rest c, Token.isNameStart d = true := by
  rcases lowered_cases before rest c with heq | heq | heq
  · rw [heq]
    exact .inr (by decide)
  · rw [heq]
    exact .inr (by decide)
  · rw [heq]
    rcases lowerChar_cases c with ⟨-, hdotted⟩ | ⟨r, hr, hhas, himage⟩ | hself
    · rw [hdotted]
      exact .inr (by decide)
    · rw [himage]
      exact .inr fun d hd => List.mem_singleton.mp hd ▸ isNameStart_image hr hhas
    · exact .inl hself

/-- A text in lower case is in lower case as far as ASCII goes. -/
theorem asciiLower_of_lower {t : Text} (h : lower t = t) : asciiLower t = t := by
  have hself : ∀ c ∈ t, c.toLower = c := by
    intro c hc
    rcases toLower_cases c with heq | ⟨-, hhigh, -⟩
    · exact heq
    · have hmem : c ∈ lowerAfter [] t := by
        rw [← lower, h]
        exact hc
      have hchar := (isLowered_of_mem_lowerAfter hmem).2
      rw [lowerChar_ascii (by omega)] at hchar
      exact (List.cons.inj hchar).1
  calc asciiLower t = t.map id := List.map_congr_left hself
    _ = t := List.map_id t

end Text

namespace Token

/-- The second text has each character of the first one as it is, or characters that start names
instead. -/
inductive Respelt : Text → Text → Prop where
  | nil : Respelt [] []
  | same (c : Char) {t u : Text} (h : Respelt t u) : Respelt (c :: t) (c :: u)
  | other (c d : Char) {s t u : Text} (hd : isNameStart d = true)
      (hs : ∀ e ∈ s, isNameStart e = true) (h : Respelt t u) : Respelt (c :: t) (d :: s ++ u)

theorem respelt_asciiLower (t : Text) : Respelt t (Text.asciiLower t) := by
  induction t with
  | nil => exact .nil
  | cons c t ih =>
    have hcons : Text.asciiLower (c :: t) = c.toLower :: Text.asciiLower t := rfl
    rw [hcons]
    rcases Text.toLower_cases c with heq | ⟨hlow, hhigh, hcode⟩
    · rw [heq]
      exact .same c ih
    · have hstart : isNameStart c.toLower = true := by
        rw [isNameStart, Bool.or_eq_true, Bool.or_eq_true, Text.isLetter_iff]
        omega
      exact .other c _ hstart (List.forall_mem_nil _) ih

theorem respelt_lowerAfter (before t : Text) : Respelt t (Text.lowerAfter before t) := by
  induction t generalizing before with
  | nil => exact .nil
  | cons c t ih =>
    rw [Text.lowerAfter_cons]
    rcases Text.lowered_eq_or before t c with heq | hstarts
    · rw [heq]
      exact .same c (ih _)
    · obtain ⟨d, s, heq⟩ := List.exists_cons_of_ne_nil (Text.lowered_ne_nil before t c)
      rw [heq] at hstarts ⊢
      obtain ⟨hd, hs⟩ := List.forall_mem_cons.mp hstarts
      exact .other c d hd hs (ih _)

theorem isNameChar_of_isNameStart {c : Char} (h : isNameStart c = true) : isNameChar c = true := by
  simp [isNameChar, h]

namespace Respelt

variable {t u : Text}

theorem isNameChar (h : Respelt t u) (ht : ∀ c ∈ t, isNameChar c = true) :
    ∀ c ∈ u, Token.isNameChar c = true := by
  induction h with
  | nil => exact ht
  | same c h ih =>
    obtain ⟨hc, ht⟩ := List.forall_mem_cons.mp ht
    exact List.forall_mem_cons.mpr ⟨hc, ih ht⟩
  | @other c d s t u hd hs h ih =>
    have hfront : ∀ e ∈ d :: s, isNameStart e = true := List.forall_mem_cons.mpr ⟨hd, hs⟩
    refine List.forall_mem_append.mpr ⟨fun e he => ?_, ih (List.forall_mem_cons.mp ht).2⟩
    exact isNameChar_of_isNameStart (hfront e he)

theorem exists_first {c : Char} (h : Respelt (c :: t) u) :
    ∃ d v, u = d :: v ∧ (d = c ∧ Respelt t v ∨ isNameStart d = true) := by
  cases h with
  | same c h => exact ⟨c, _, rfl, .inl ⟨rfl, h⟩⟩
  | other c d hd hs h => exact ⟨d, _, rfl, .inr hd⟩

end Respelt

theorem startsIdent_of_isNameStart {c : Char} (h : isNameStart c = true) (t : Text) :
    startsIdent (c :: t) = true := by
  have hdash : c ≠ '-' := by
    rintro rfl
    cases h
  rwa [startsIdent_cons hdash (ne_backslash_of_isNameChar (isNameChar_of_isNameStart h))]

/-- A name stays one if some of its characters are replaced. -/
theorem IsName.respelt {name u : Text} (h : IsName name) (hu : Respelt name u) : IsName u := by
  obtain ⟨hstart, hchars⟩ := h
  refine ⟨?_, hu.isNameChar hchars⟩
  cases name with
  | nil => cases hstart
  | cons c name =>
    obtain ⟨hc, hname⟩ := List.forall_mem_cons.mp hchars
    obtain ⟨d, v, rfl, ⟨rfl, hv⟩ | hd⟩ := hu.exists_first
    · by_cases hdash : d = '-'
      · -- a hyphen is followed by another one or by what starts a name
        subst hdash
        cases name with
        | nil => cases hstart
        | cons e name =>
          obtain ⟨he, -⟩ := List.forall_mem_cons.mp hname
          rw [startsIdent_dash (ne_backslash_of_isNameChar he), Bool.or_eq_true, beq_iff_eq]
            at hstart
          obtain ⟨f, w, rfl, hf⟩ := hv.exists_first
          have hstarts : f = '-' ∨ isNameStart f = true := by
            rcases hf with ⟨rfl, -⟩ | hf
            · exact hstart
            · exact .inr hf
          have hfchar : isNameChar f = true :=
            hstarts.elim (fun heq => heq ▸ rfl) isNameChar_of_isNameStart
          rwa [startsIdent_dash (ne_backslash_of_isNameChar hfchar), Bool.or_eq_true, beq_iff_eq]
      · rw [startsIdent_cons hdash (ne_backslash_of_isNameChar hc)] at hstart ⊢
        exact hstart
    · exact startsIdent_of_isNameStart hd v

theorem IsName.asciiLower {name : Text} (h : IsName name) : IsName (Text.asciiLower name) :=
  h.respelt (respelt_asciiLower name)

/-- **Names in lower case** need no escapes if the names need none. -/
theorem IsName.lower {name : Text} (h : IsName name) : IsName (Text.lower name) :=
  h.respelt (respelt_lowerAfter [] name)

/-- A name of an identifier without blanks is one as it is kept as a property. -/
theorem IsName.propertyName {name : Text} (h : IsName name)
    (hblank : ∀ c ∈ name, Text.isBlank c = false) :
    IsName (Style.propertyName (Text.asciiLower name)) := by
  have hsolid : ∀ c ∈ Text.asciiLower name, Text.isBlank c = false := by
    intro c hc
    obtain ⟨d, hd, rfl⟩ := List.mem_map.mp hc
    rcases Text.toLower_cases d with heq | ⟨hlow, hhigh, hcode⟩
    · rw [heq]
      exact hblank d hd
    · exact Text.isBlank_of_printing (by omega) (by omega)
  rw [Style.propertyName, Text.trim, Text.trimWhere_of_none hsolid]
  exact h.asciiLower.lower

end Token

end CssValues
