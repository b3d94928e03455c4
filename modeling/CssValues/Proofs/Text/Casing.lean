import CssValues.Proofs.Text.Digits
import CssValues.Proofs.Text.Lowercase
import CssValues.Proofs.Text.Trim
import Mathlib.Data.List.Basic

/-!
# Lower case is final

No code point that a run of the table maps to is in a run itself, so a text in lower case stays as it
is (`lower_lower`). White space is neither lost nor made, so a trimmed text stays trimmed
(`trim_lower`), and what is trimmed off a text is trimmed off its lower case (`trim_lower_eq`).
-/

namespace CssValues.Text

/-! ## The table -/

namespace CaseRun

/-- What a code point of the run is mapped to. -/
def image (r : CaseRun) (n : Nat) : Nat := ((n : Int) + r.shift).toNat

/-- No code point that `r` maps to is in `q`: the ranges are apart, or one has the even and the other
the odd code points. -/
def misses (r q : CaseRun) : Bool :=
  Nat.blt (r.image r.last) q.first || Nat.blt q.last (r.image r.first)
    || (Nat.blt 0 q.first && q.step % 2 == 0 && (r.step % 2 == 0 || r.first == r.last)
      && (r.first + r.shift - q.first) % 2 != 0)

theorem has_iff {r : CaseRun} {n : Nat} :
    r.has n = true ↔ (r.first ≤ n ∧ n ≤ r.last) ∧ (n - r.first) % r.step = 0 := by
  simp [has]

theorem has_image_eq_false {r q : CaseRun} (h : r.misses q = true) {n : Nat}
    (hn : r.has n = true) : q.has (r.image n) = false := by
  rw [← Bool.not_eq_true]
  intro hq
  obtain ⟨⟨hrfirst, hrlast⟩, hrstep⟩ := has_iff.mp hn
  obtain ⟨⟨hqfirst, hqlast⟩, hqstep⟩ := has_iff.mp hq
  simp only [misses, Bool.or_eq_true, Bool.and_eq_true, Nat.blt_eq, beq_iff_eq, bne_iff_ne] at h
  unfold image at h hqfirst hqlast hqstep
  rcases h with (h | h) | ⟨⟨⟨hpos, heven⟩, hsame⟩, hodd⟩
  · omega
  · omega
  · -- both are at an even distance from the start of their run
    have hqeven : (((n : Int) + r.shift).toNat - q.first) % 2 = 0 := by
      obtain ⟨k, hk⟩ := Nat.dvd_of_mod_eq_zero hqstep
      obtain ⟨j, hj⟩ := Nat.dvd_of_mod_eq_zero heven
      rw [hk, hj, Nat.mul_assoc, Nat.mul_mod_right]
    have hreven : (n - r.first) % 2 = 0 := by
      rcases hsame with hstep | hsingle
      · obtain ⟨k, hk⟩ := Nat.dvd_of_mod_eq_zero hrstep
        obtain ⟨j, hj⟩ := Nat.dvd_of_mod_eq_zero hstep
        rw [hk, hj, Nat.mul_assoc, Nat.mul_mod_right]
      · omega
    omega

/-- The range from the first to the last code point of some runs. -/
def hull : List CaseRun → CaseRun
  | [] => ⟨0x110000, 0, 1, 0⟩
  | q :: qs => ⟨min q.first (hull qs).first, max q.last (hull qs).last, 1, 0⟩

theorem has_hull {q : CaseRun} {qs : List CaseRun} (hq : q ∈ qs) {n : Nat} (hn : q.has n = true) :
    (hull qs).has n = true := by
  obtain ⟨⟨hfirst, hlast⟩, -⟩ := has_iff.mp hn
  suffices hull qs = ⟨(hull qs).first, (hull qs).last, 1, 0⟩ ∧ (hull qs).first ≤ q.first
      ∧ q.last ≤ (hull qs).last by
    rw [this.1, has_iff]
    exact ⟨⟨by dsimp only; omega, by dsimp only; omega⟩, Nat.mod_one _⟩
  induction qs with
  | nil => cases hq
  | cons p qs ih =>
    refine ⟨rfl, ?_⟩
    simp only [hull]
    rcases List.mem_cons.mp hq with rfl | hq
    · omega
    · have := ih hq
      omega

/-- `r` misses all of some runs. Unless it is apart from the range of them, they are halved, `depth`
times at most. -/
def missesAll (r : CaseRun) : Nat → List CaseRun → Bool
  | 0, qs => qs.all r.misses
  | depth + 1, qs => r.misses (hull qs)
    || (r.missesAll depth (qs.take (qs.length / 2)) && r.missesAll depth (qs.drop (qs.length / 2)))

theorem has_image_eq_false_of_missesAll {r : CaseRun} {depth : Nat} {qs : List CaseRun}
    (h : r.missesAll depth qs = true) {q : CaseRun} (hq : q ∈ qs) {n : Nat} (hn : r.has n = true) :
    q.has (r.image n) = false := by
  induction depth generalizing qs with
  | zero => exact has_image_eq_false (List.all_eq_true.mp h q hq) hn
  | succ depth ih =>
    rw [missesAll, Bool.or_eq_true, Bool.and_eq_true] at h
    rcases h with hapart | ⟨hleft, hright⟩
    · rw [← Bool.not_eq_true]
      intro hin
      have := has_hull hq hin
      rw [has_image_eq_false hapart hn] at this
      cases this
    · rw [← List.take_append_drop (qs.length / 2) qs] at hq
      rcases List.mem_append.mp hq with hq | hq
      · exact ih hleft hq
      · exact ih hright hq

end CaseRun

/-- The code points that have another lower case: the table, and the capital I with a dot. -/
def changingRuns : List CaseRun := lowerRuns ++ [⟨0x130, 0x130, 1, 0⟩]

/-- The blanks as runs that are mapped to themselves. -/
def blankRuns : List CaseRun :=
  [⟨0x09, 0x0D, 1, 0⟩, ⟨0x1C, 0x20, 1, 0⟩, ⟨0x85, 0x85, 1, 0⟩, ⟨0xA0, 0xA0, 1, 0⟩,
    ⟨0x1680, 0x1680, 1, 0⟩, ⟨0x2000, 0x200A, 1, 0⟩, ⟨0x2028, 0x2029, 1, 0⟩, ⟨0x202F, 0x202F, 1, 0⟩,
    ⟨0x205F, 0x205F, 1, 0⟩, ⟨0x3000, 0x3000, 1, 0⟩]

/-- The digits of every script as runs that are mapped to themselves. -/
def digitRuns : List CaseRun := decimalZeros.map fun first => ⟨first, first + 9, 1, 0⟩

theorem exists_blankRun {c : Char} (h : isBlank c = true) :
    ∃ q ∈ blankRuns, q.has c.toNat = true := by
  simp only [isBlank, isWhiteSpace, Bool.or_eq_true, Bool.and_eq_true, decide_eq_true_eq,
    beq_iff_eq] at h
  simp only [blankRuns, List.mem_cons, exists_eq_or_imp, CaseRun.has_iff, Nat.mod_one,
    List.not_mem_nil, or_false, exists_eq_left, and_true]
  omega

theorem exists_digitRun {c : Char} (h : isDigit c = true) :
    ∃ q ∈ digitRuns, q.has c.toNat = true := by
  simp only [isDigit, digitValue?, Option.isSome_map, List.find?_isSome, Bool.and_eq_true,
    decide_eq_true_eq] at h
  obtain ⟨first, hmem, hlow, hhigh⟩ := h
  exact ⟨_, List.mem_map_of_mem hmem, CaseRun.has_iff.mpr ⟨⟨hlow, hhigh⟩, Nat.mod_one _⟩⟩

/-- What a character of the table becomes has no lower case of its own, and is no white space. -/
theorem has_ofNat_image {r q : CaseRun} (hr : r ∈ lowerRuns) (hq : q ∈ changingRuns ++ blankRuns)
    {n : Nat} (hn : r.has n = true) : q.has (Char.ofNat (r.image n)).toNat = false := by
  by_cases hvalid : (r.image n).isValidChar
  · have hall : (lowerRuns.all (·.missesAll 5 (changingRuns ++ blankRuns))) = true := by
      decide +kernel
    rw [Char.ofNat, dif_pos hvalid]
    exact CaseRun.has_image_eq_false_of_missesAll (List.all_eq_true.mp hall r hr) hq hn
  · have hall : ((changingRuns ++ blankRuns).all fun q => !q.has 0) = true := by decide
    rw [Char.ofNat, dif_neg hvalid]
    simpa using List.all_eq_true.mp hall q hq

/-- Blanks and digits have no lower case of their own. -/
theorem has_eq_false_of_kept {r q : CaseRun} (hr : r ∈ blankRuns ++ digitRuns)
    (hq : q ∈ changingRuns) {n : Nat} (hn : r.has n = true) : q.has n = false := by
  have hall : ((blankRuns ++ digitRuns).all fun r =>
      r.shift == 0 && r.missesAll 5 changingRuns) = true := by
    decide +kernel
  obtain ⟨hshift, hmisses⟩ := Bool.and_eq_true_iff.mp (List.all_eq_true.mp hall r hr)
  have himage := CaseRun.has_image_eq_false_of_missesAll hmisses hq hn
  rwa [CaseRun.image, eq_of_beq hshift, Int.add_zero, Int.toNat_natCast] at himage

/-- The table goes to code points of characters. -/
theorem toNat_ofNat_image {r : CaseRun} (hr : r ∈ lowerRuns) {n : Nat} (hn : r.has n = true) :
    (Char.ofNat (r.image n)).toNat = r.image n := by
  have hall : (lowerRuns.all fun r => Nat.blt (r.image r.last) 0xD800
      || Nat.blt 0xDFFF (r.image r.first) && Nat.blt (r.image r.last) 0x110000) = true := by
    decide
  have hrun := List.all_eq_true.mp hall r hr
  simp only [Bool.and_eq_true, Bool.or_eq_true, Nat.blt_eq] at hrun
  obtain ⟨⟨hfirst, hlast⟩, -⟩ := CaseRun.has_iff.mp hn
  have hvalid : (r.image n).isValidChar := by
    unfold CaseRun.image at *
    unfold Nat.isValidChar
    omega
  rw [Char.ofNat, dif_pos hvalid]
  rfl

/-! ## Single characters -/

/-- What a character becomes: `i` and a dot, the image of a run, or itself. -/
theorem lowerChar_cases (c : Char) :
    (c.toNat = 0x130 ∧ lowerChar c = ['i', Char.ofNat 0x307])
    ∨ (∃ r ∈ lowerRuns, r.has c.toNat = true ∧ lowerChar c = [Char.ofNat (r.image c.toNat)])
    ∨ lowerChar c = [c] := by
  unfold lowerChar
  split
  · next hdot => exact .inl ⟨hdot, rfl⟩
  · split
    · next r hr =>
      exact .inr (.inl ⟨r, List.mem_of_find?_eq_some hr,
        List.find?_some (p := fun q : CaseRun => q.has c.toNat) hr, rfl⟩)
    · exact .inr (.inr rfl)

theorem lowerChar_of_runs {c : Char} (h : ∀ q ∈ changingRuns, q.has c.toNat = false) :
    lowerChar c = [c] := by
  have hdot : c.toNat ≠ 0x130 := fun heq => by
    have := h _ (List.mem_append_right _ List.mem_cons_self)
    rw [heq] at this
    cases this
  have hnone : lowerRuns.find? (·.has c.toNat) = none :=
    List.find?_eq_none.mpr fun q hq => by simp [h q (List.mem_append_left _ hq)]
  rw [lowerChar, if_neg hdot, hnone]

/-- **Finality.** A character that lower-casing gives is its own lower case. -/
theorem lowerChar_of_mem {c d : Char} (h : d ∈ lowerChar c) : lowerChar d = [d] := by
  rcases lowerChar_cases c with ⟨-, hdotted⟩ | ⟨r, hr, hc, himage⟩ | hself
  · have hboth : ∀ d ∈ ['i', Char.ofNat 0x307], lowerChar d = [d] := by decide
    exact hboth d (hdotted ▸ h)
  · obtain rfl := List.mem_singleton.mp (himage ▸ h)
    exact lowerChar_of_runs fun q hq => has_ofNat_image hr (List.mem_append_left _ hq) hc
  · obtain rfl := List.mem_singleton.mp (hself ▸ h)
    exact hself

theorem isBlank_of_mem_lowerChar {c d : Char} (hc : isBlank c = false) (h : d ∈ lowerChar c) :
    isBlank d = false := by
  rcases lowerChar_cases c with ⟨-, hdotted⟩ | ⟨r, hr, hhas, himage⟩ | hself
  · have hboth : ∀ d ∈ ['i', Char.ofNat 0x307], isBlank d = false := by decide
    exact hboth d (hdotted ▸ h)
  · obtain rfl := List.mem_singleton.mp (himage ▸ h)
    rw [← Bool.not_eq_true]
    intro hblank
    obtain ⟨q, hq, hin⟩ := exists_blankRun hblank
    rw [has_ofNat_image hr (List.mem_append_right _ hq) hhas] at hin
    cases hin
  · obtain rfl := List.mem_singleton.mp (hself ▸ h)
    exact hc

theorem lowerChar_ne_nil (c : Char) : lowerChar c ≠ [] := by
  rcases lowerChar_cases c with ⟨-, h⟩ | ⟨r, -, -, h⟩ | h
  all_goals
    rw [h]
    exact List.cons_ne_nil _ _

/-- No digit has a lower case of its own. -/
theorem lowerChar_of_isDigit {c : Char} (h : isDigit c = true) : lowerChar c = [c] := by
  obtain ⟨r, hr, hhas⟩ := exists_digitRun h
  exact lowerChar_of_runs fun q hq => has_eq_false_of_kept (List.mem_append_right _ hr) hq hhas

/-! ## Texts -/

/-- What one character becomes inside a text. -/
def lowered (before rest : Text) (c : Char) : Text :=
  if c = 'Σ' then
    if startsCased before && !startsCased rest then ['ς'] else ['σ']
  else lowerChar c

theorem lowerAfter_cons (before rest : Text) (c : Char) :
    lowerAfter before (c :: rest) = lowered before rest c ++ lowerAfter (c :: before) rest := rfl

theorem lowered_cases (before rest : Text) (c : Char) :
    lowered before rest c = ['ς'] ∨ lowered before rest c = ['σ']
      ∨ lowered before rest c = lowerChar c := by
  unfold lowered
  split
  · split
    · exact .inl rfl
    · exact .inr (.inl rfl)
  · exact .inr (.inr rfl)

theorem lowered_ne_nil (before rest : Text) (c : Char) : lowered before rest c ≠ [] := by
  rcases lowered_cases before rest c with h | h | h
  · rw [h]; exact List.cons_ne_nil _ _
  · rw [h]; exact List.cons_ne_nil _ _
  · rw [h]; exact lowerChar_ne_nil c

theorem isBlank_of_mem_lowered {before rest : Text} {c d : Char} (hc : isBlank c = false)
    (h : d ∈ lowered before rest c) : isBlank d = false := by
  rcases lowered_cases before rest c with heq | heq | heq
  · obtain rfl := List.mem_singleton.mp (heq ▸ h)
    decide
  · obtain rfl := List.mem_singleton.mp (heq ▸ h)
    decide
  · exact isBlank_of_mem_lowerChar hc (heq ▸ h)

/-- A character that is its own lower case, wherever it stands. -/
def IsLowered (c : Char) : Prop := c ≠ 'Σ' ∧ lowerChar c = [c]

theorem isLowered_of_mem_lowerAfter {t before : Text} {d : Char} (h : d ∈ lowerAfter before t) :
    IsLowered d := by
  induction t generalizing before with
  | nil => cases h
  | cons c t ih =>
    rw [lowerAfter_cons] at h
    rcases List.mem_append.mp h with h | h
    · rcases lowered_cases before t c with heq | heq | heq
      · obtain rfl := List.mem_singleton.mp (heq ▸ h)
        exact ⟨by decide, rfl⟩
      · obtain rfl := List.mem_singleton.mp (heq ▸ h)
        exact ⟨by decide, rfl⟩
      · have hself : lowerChar d = [d] := lowerChar_of_mem (c := c) (heq ▸ h)
        refine ⟨?_, hself⟩
        rintro rfl
        exact absurd hself (by decide)
    · exact ih h

theorem lowerAfter_of_isLowered {t : Text} (h : ∀ c ∈ t, IsLowered c) (before : Text) :
    lowerAfter before t = t := by
  induction t generalizing before with
  | nil => rfl
  | cons c t ih =>
    obtain ⟨hsigma, hself⟩ := h c List.mem_cons_self
    rw [lowerAfter_cons, lowered, if_neg hsigma, hself,
      ih fun d hd => h d (List.mem_cons_of_mem _ hd)]
    rfl

/-- Digits, and what stands before the letters in ASCII, stay where they are. -/
theorem exists_lower_cons {c : Char} (h : c.toNat < 0x41 ∨ isDigit c = true) (t : Text) :
    ∃ r, lower (c :: t) = c :: r := by
  rcases h with hlow | hdigit
  · have hsame : c.toLower = c := (toLower_cases c).resolve_right (by omega)
    refine ⟨lowerAfter [c] t, ?_⟩
    rw [lower, lowerAfter_cons_ascii (by omega), hsame]
  · have hsigma : c ≠ 'Σ' := by
      rintro rfl
      exact absurd hdigit (by decide)
    refine ⟨lowerAfter [c] t, ?_⟩
    rw [lower, lowerAfter_cons, lowered, if_neg hsigma, lowerChar_of_isDigit hdigit]
    rfl

/-- **Idempotence.** A text in lower case stays as it is. -/
theorem lower_lower (t : Text) : lower (lower t) = lower t :=
  lowerAfter_of_isLowered (fun _ => isLowered_of_mem_lowerAfter) []

theorem lower_eq_nil_iff {t : Text} : lower t = [] ↔ t = [] := by
  constructor
  · intro h
    cases t with
    | nil => rfl
    | cons c t => exact absurd (List.append_eq_nil_iff.mp h).1 (lowered_ne_nil [] t c)
  · rintro rfl
    rfl

theorem head?_lowerAfter {t : Text} (h : ∀ c ∈ t.head?, isBlank c = false) (before : Text) :
    ∀ d ∈ (lowerAfter before t).head?, isBlank d = false := by
  cases t with
  | nil => nofun
  | cons c t =>
    intro d hd
    rw [lowerAfter_cons, List.head?_append_of_ne_nil _ (lowered_ne_nil before t c)] at hd
    exact isBlank_of_mem_lowered (h c rfl) (List.mem_of_mem_head? hd)

theorem getLast?_lowerAfter {t : Text} (h : ∀ c ∈ t.getLast?, isBlank c = false) (before : Text) :
    ∀ d ∈ (lowerAfter before t).getLast?, isBlank d = false := by
  induction t generalizing before with
  | nil => nofun
  | cons c t ih =>
    intro d hd
    rw [lowerAfter_cons] at hd
    cases t with
    | nil =>
      rw [lowerAfter, List.append_nil] at hd
      exact isBlank_of_mem_lowered (h c rfl) (List.mem_of_mem_getLast? hd)
    | cons e t =>
      have hne : lowerAfter (c :: before) (e :: t) ≠ [] := fun heq =>
        lowered_ne_nil _ t e (List.append_eq_nil_iff.mp heq).1
      rw [List.getLast?_append_of_ne_nil _ hne] at hd
      exact ih (by simpa using h) (c :: before) d hd

/-- A trimmed text is trimmed in lower case. -/
theorem trim_lower {t : Text} (h : t.trim = t) : (lower t).trim = lower t := by
  refine trimWhere_of_ends (head?_lowerAfter ?_ []) (getLast?_lowerAfter ?_ [])
  · rw [← h]
    exact head?_trimWhere
  · rw [← h]
    exact getLast?_trimWhere

/-! ## Blanks -/

/-- The code points of the blanks. -/
def blankCodes : List Nat :=
  List.range' 0x09 5 ++ List.range' 0x1C 5 ++ List.range' 0x2000 11
    ++ [0x85, 0xA0, 0x1680, 0x2028, 0x2029, 0x202F, 0x205F, 0x3000]

theorem mem_blankCodes {c : Char} (h : isBlank c = true) : c.toNat ∈ blankCodes := by
  simp only [isBlank, isWhiteSpace, Bool.or_eq_true, Bool.and_eq_true, decide_eq_true_eq,
    beq_iff_eq] at h
  simp only [blankCodes, List.mem_append, List.mem_range'_1, List.mem_cons, List.not_mem_nil,
    or_false]
  omega

/-- A blank has no case, and no letter behind it counts for a sigma in front of it. -/
theorem isLowered_of_isBlank {c : Char} (h : isBlank c = true) : IsLowered c
    ∧ caseIgnorable.has c.toNat = false ∧ cased.has c.toNat = false := by
  have hclass : ∀ n ∈ blankCodes, caseIgnorable.has n = false ∧ cased.has n = false := by
    decide +kernel
  obtain ⟨r, hr, hhas⟩ := exists_blankRun h
  refine ⟨⟨?_, ?_⟩, hclass _ (mem_blankCodes h)⟩
  · rintro rfl
    cases h
  · exact lowerChar_of_runs fun q hq => has_eq_false_of_kept (List.mem_append_left _ hr) hq hhas

theorem startsCased_append_blanks (t : Text) (w : Blanks) :
    startsCased (t ++ w.val) = startsCased t := by
  induction t with
  | nil =>
    obtain ⟨w, hw⟩ := w
    cases w with
    | nil => rfl
    | cons b w =>
      obtain ⟨-, hignorable, hcased⟩ := isLowered_of_isBlank (hw b List.mem_cons_self)
      simp [startsCased, hignorable, hcased]
  | cons c t ih =>
    unfold startsCased at ih ⊢
    rw [List.cons_append, List.dropWhile_cons, List.dropWhile_cons]
    cases caseIgnorable.has c.toNat with
    | true => exact ih
    | false => rfl

/-- The blanks around a text do not matter to its sigmas. -/
theorem lowerAfter_append_blanks (before t : Text) (w v : Blanks) :
    lowerAfter (before ++ w.val) (t ++ v.val) = lowerAfter before t ++ v.val := by
  induction t generalizing before with
  | nil => exact lowerAfter_of_isLowered (fun c hc => (isLowered_of_isBlank (v.property c hc)).1) _
  | cons c t ih =>
    have hc : lowered (before ++ w.val) (t ++ v.val) c = lowered before t c := by
      rw [lowered, lowered, startsCased_append_blanks, startsCased_append_blanks]
    rw [List.cons_append, lowerAfter_cons, lowerAfter_cons, hc, ← List.cons_append, ih,
      List.append_assoc]

theorem lowerAfter_blanks_append (before : Text) (w : Blanks) (t : Text) :
    lowerAfter before (w.val ++ t) = w.val ++ lowerAfter (w.val.reverse ++ before) t := by
  obtain ⟨w, hw⟩ := w
  induction w generalizing before with
  | nil => rfl
  | cons b w ih =>
    obtain ⟨⟨hsigma, hself⟩, -⟩ := isLowered_of_isBlank (hw b List.mem_cons_self)
    rw [List.cons_append, lowerAfter_cons, lowered, if_neg hsigma, hself,
      ih _ fun d hd => hw d (List.mem_cons_of_mem _ hd)]
    simp

/-- Blanks around a text stay as they are. -/
theorem lower_append_blanks (w : Blanks) (t : Text) (v : Blanks) :
    lower (w.val ++ t ++ v.val) = w.val ++ lower t ++ v.val := by
  have hback : ∀ c ∈ w.val.reverse, isBlank c = true :=
    fun c hc => w.property c (List.mem_reverse.mp hc)
  rw [lower, List.append_assoc, lowerAfter_blanks_append, List.append_nil, List.append_assoc]
  exact congrArg _ (lowerAfter_append_blanks [] t ⟨_, hback⟩ v)

theorem exists_blanks (t : Text) : ∃ w v : Blanks, t = w.val ++ t.trim ++ v.val := by
  obtain ⟨s, e, ht, hs, he⟩ := exists_trimWhere isBlank t
  exact ⟨⟨s, hs⟩, ⟨e, he⟩, ht⟩

/-- What is trimmed off a text is trimmed off its lower case. -/
theorem trim_lower_eq (t : Text) : (lower t).trim = lower t.trim := by
  obtain ⟨w, v, ht⟩ := exists_blanks t
  have hlower := lower_append_blanks w t.trim v
  rw [← ht] at hlower
  rw [hlower, trim, trimWhere_append w.property v.property]
  exact trim_lower trim_trim

/-- Lower case does not hide the blanks around a text. -/
theorem lower_trim_eq_iff {t : Text} : lower t.trim = lower t ↔ t.trim = t := by
  refine ⟨fun h => ?_, fun h => by rw [h]⟩
  obtain ⟨w, v, ht⟩ := exists_blanks t
  have hlower := lower_append_blanks w t.trim v
  rw [← ht, h] at hlower
  have hlength := congrArg List.length hlower
  simp only [List.length_append] at hlength
  have hw : w.val = [] := List.eq_nil_of_length_eq_zero (by omega)
  have hv : v.val = [] := List.eq_nil_of_length_eq_zero (by omega)
  rw [hw, hv, List.nil_append, List.append_nil] at ht
  exact ht.symm

end CssValues.Text
