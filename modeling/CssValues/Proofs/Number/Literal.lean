import CssValues.Number.Reading
import CssValues.Proofs.Number.Decimal
import CssValues.Proofs.Number.Nearest
import CssValues.Proofs.Text.Digits
import CssValues.Proofs.Text.Trim

/-!
# Number literals

The grammar of numbers in style values, apart from the functions that scan for it: digits of any
script with an optional point and an optional exponent. A literal is taken off a text whole
(`Literal.splitNumber?_text`), nothing but literals is taken off (`Literal.exists_of_splitNumber?`), a
text can be a literal in one way only (`Literal.text_append_inj`), and a literal reads as the double
nearest to its value (`Literal.readFinite?_text_iff`).
-/

namespace CssValues

/-! ## The grammar -/

/-- What stands in front of a number or of an exponent. -/
inductive Sign where
  | absent
  | plus
  | minus
  deriving DecidableEq

namespace Sign

def text : Sign → Text
  | absent => []
  | plus => ['+']
  | minus => ['-']

def isMinus : Sign → Bool
  | minus => true
  | _ => false

/-- The sign of numbers that are written without a plus. -/
def ofNegative (negative : Bool) : Sign := if negative then minus else absent

end Sign

/-- The letter `e` or `E`, an optional sign, and digits. -/
structure Exponent where
  mark : Char
  sign : Sign
  digits : Text
  isMark : isExponentMark mark = true
  ne_nil : digits ≠ []
  isDigit : ∀ c ∈ digits, Text.isDigit c = true

namespace Exponent

def text (x : Exponent) : Text := x.mark :: x.sign.text ++ x.digits

def value (x : Exponent) : Int :=
  if x.sign.isMinus then -(Text.ofDigits x.digits : Int) else Text.ofDigits x.digits

end Exponent

/-- A number without a sign: digits with a point among, before or behind them or without one, and
perhaps an exponent. -/
structure Literal where
  whole : Text
  /-- The digits behind the point, if there is a point. -/
  fraction : Option Text
  exponent : Option Exponent
  ne_nil : whole ++ fraction.getD [] ≠ []
  isDigit : ∀ c ∈ whole ++ fraction.getD [], Text.isDigit c = true

namespace Literal

/-- The point and the digits behind it. -/
def pointText (l : Literal) : Text := l.fraction.elim [] ('.' :: ·)

def exponentText (l : Literal) : Text := l.exponent.elim [] Exponent.text

def mantissa (l : Literal) : Text := l.whole ++ l.pointText

def text (l : Literal) : Text := l.mantissa ++ l.exponentText

def exponentValue (l : Literal) : Int := l.exponent.elim 0 Exponent.value

/-- The number that a literal stands for. -/
def magnitude (l : Literal) : Rat :=
  (Text.ofDigits l.whole + Text.ofDigits (l.fraction.getD []) / 10 ^ (l.fraction.getD []).length)
    * 10 ^ l.exponentValue

/-- The decimal number of a sign and a literal. -/
def decimal (l : Literal) (negative : Bool) : Decimal :=
  ⟨negative, Text.ofDigits (l.whole ++ l.fraction.getD []),
    l.exponentValue - (l.fraction.getD []).length⟩

theorem text_of_exponent_none {l : Literal} (h : l.exponent = none) : l.text = l.mantissa := by
  rw [text, exponentText, h]
  exact List.append_nil _

theorem pointText_of_none {l : Literal} (h : l.fraction = none) : l.pointText = [] := by
  rw [pointText, h]
  rfl

theorem pointText_of_some {l : Literal} {f : Text} (h : l.fraction = some f) :
    l.pointText = '.' :: f := by
  rw [pointText, h]
  rfl

/-- Without a point the digits are in front of it. -/
theorem isEmpty_whole {l : Literal} (h : l.fraction = none) : l.whole.isEmpty = false := by
  simpa [h] using l.ne_nil

/-- There are digits on one side of the point at least. -/
theorem isEmpty_whole_fraction {l : Literal} {f : Text} (h : l.fraction = some f) :
    (l.whole.isEmpty && f.isEmpty) = false := by
  have hne := l.ne_nil
  rw [h, Option.getD_some, ne_eq, List.append_eq_nil_iff] at hne
  rw [← Bool.not_eq_true, Bool.and_eq_true, List.isEmpty_iff, List.isEmpty_iff]
  exact hne

theorem magnitude_decimal (l : Literal) (negative : Bool) :
    (l.decimal negative).magnitude = l.magnitude := by
  have hten : (10 : Rat) ≠ 0 := by norm_num
  unfold Decimal.magnitude decimal magnitude
  rw [Text.ofDigits_append, zpow_sub₀ hten, zpow_natCast]
  push_cast
  field_simp

theorem magnitude_nonneg (l : Literal) : 0 ≤ l.magnitude := by
  rw [← l.magnitude_decimal false]
  exact Decimal.magnitude_nonneg _

/-! ## Characters -/

variable (l : Literal)

theorem isDigit_of_mem_whole : ∀ c ∈ l.whole, Text.isDigit c = true := by
  intro c hc
  exact l.isDigit c (List.mem_append_left _ hc)

theorem isDigit_of_mem_fraction {f : Text} (h : l.fraction = some f) :
    ∀ c ∈ f, Text.isDigit c = true := by
  intro c hc
  refine l.isDigit c (List.mem_append_right _ ?_)
  rw [h]
  exact hc

theorem mem_sign_text {s : Sign} {c : Char} (h : c ∈ s.text) : c = '+' ∨ c = '-' := by
  cases s <;> simp_all [Sign.text]

theorem mem_text {c : Char} (h : c ∈ l.text) :
    Text.isDigit c = true ∨ c ∈ ['.', 'e', 'E', '+', '-'] := by
  obtain ⟨whole, fraction, exponent, hne, hdigit⟩ := l
  rcases List.mem_append.mp h with hmantissa | hexponent
  · rcases List.mem_append.mp hmantissa with hwhole | hpoint
    · exact .inl (hdigit c (List.mem_append_left _ hwhole))
    · cases fraction with
      | none => cases hpoint
      | some f =>
        rcases List.mem_cons.mp hpoint with rfl | hf
        · exact .inr (by simp)
        · exact .inl (hdigit c (List.mem_append_right _ hf))
  · cases exponent with
    | none => cases hexponent
    | some x =>
      rcases List.mem_append.mp hexponent with hfront | hdigits
      · rcases List.mem_cons.mp hfront with rfl | hsign
        · have hmark := x.isMark
          simp only [isExponentMark, Bool.or_eq_true, beq_iff_eq] at hmark
          rcases hmark with hmark | hmark
          · exact .inr (by simp [hmark])
          · exact .inr (by simp [hmark])
        · rcases mem_sign_text hsign with rfl | rfl
          · exact .inr (by simp)
          · exact .inr (by simp)
      · exact .inl (x.isDigit c hdigits)

/-- A literal starts with a digit or with a point. -/
theorem exists_text_cons : ∃ c t, l.text = c :: t ∧ (Text.isDigit c = true ∨ c = '.') := by
  obtain ⟨whole, fraction, exponent, hne, hdigit⟩ := l
  cases whole with
  | cons c whole => exact ⟨c, _, rfl, .inl (hdigit c (by simp))⟩
  | nil =>
    cases fraction with
    | none => exact absurd rfl hne
    | some f => exact ⟨'.', _, rfl, .inr rfl⟩

theorem isBlank_of_mem_text {c : Char} (h : c ∈ l.text) : Text.isBlank c = false := by
  rcases l.mem_text h with hdigit | hmark
  · exact Text.isBlank_of_isDigit hdigit
  · have hmarks : ∀ d ∈ ['.', 'e', 'E', '+', '-'], Text.isBlank d = false := by decide
    exact hmarks c hmark

theorem underscore_notMem (s : Sign) : '_' ∉ s.text ++ l.text := by
  intro hmem
  rcases List.mem_append.mp hmem with hsign | htext
  · rcases mem_sign_text hsign with h | h <;> exact absurd h (by decide)
  · rcases l.mem_text htext with hdigit | hmark
    · exact absurd hdigit (by decide)
    · exact absurd hmark (by decide)

end Literal

/-! ## What may stand behind a literal -/

theorem isDigit_dot : Text.isDigit '.' = false := by decide

theorem isDigit_of_isExponentMark {c : Char} (h : isExponentMark c = true) :
    Text.isDigit c = false := by
  simp only [isExponentMark, Bool.or_eq_true, beq_iff_eq] at h
  rcases h with rfl | rfl <;> decide

/-- Nothing at the front of the text could continue a numeral. -/
def EndsNumeral (rest : Text) : Prop :=
  (∀ c ∈ rest.head?, Text.isDigit c = false ∧ c ≠ '.')
    ∧ splitExponent Text.isDigit rest = ([], rest)

theorem EndsNumeral.head? {rest : Text} (h : EndsNumeral rest) :
    ∀ c ∈ rest.head?, Text.isDigit c = false := by
  intro c hc
  exact (h.1 c hc).1

theorem endsNumeral_nil : EndsNumeral [] := ⟨by simp, rfl⟩

theorem splitSign_of_ne {c : Char} (hplus : c ≠ '+') (hminus : c ≠ '-') (t : Text) :
    splitSign (c :: t) = ([], c :: t) := by
  unfold splitSign
  split
  · next heq => cases heq; exact absurd rfl hplus
  · next heq => cases heq; exact absurd rfl hminus
  · rfl

theorem ne_sign_of_isDigit {c : Char} (h : Text.isDigit c = true) : c ≠ '+' ∧ c ≠ '-' := by
  constructor <;> rintro rfl <;> exact absurd h (by decide)

/-- A sign in front of anything else than a sign is told apart. -/
theorem Sign.splitSign_text (s : Sign) {c : Char} (h : c ≠ '+' ∧ c ≠ '-') (t : Text) :
    splitSign (s.text ++ c :: t) = (s.text, c :: t) := by
  cases s with
  | absent => exact splitSign_of_ne h.1 h.2 t
  | plus => rfl
  | minus => rfl

theorem Sign.text_inj {s s' : Sign} (h : s.text = s'.text) : s = s' := by
  cases s <;> cases s' <;> first | rfl | (exact absurd h (by decide))

/-- A sign is a minus if it is written like one. -/
theorem Sign.decide_text (s : Sign) : decide (s.text = ['-']) = s.isMinus := by
  cases s <;> rfl

namespace Exponent

variable (x : Exponent)

/-- The digits of an exponent, told from its sign. -/
theorem splitSign_text (t : Text) : splitSign (x.sign.text ++ (x.digits ++ t))
    = (x.sign.text, x.digits ++ t) := by
  obtain ⟨c, digits, hcons⟩ := List.exists_cons_of_ne_nil x.ne_nil
  have hc : Text.isDigit c = true := x.isDigit c (by rw [hcons]; exact List.mem_cons_self)
  rw [hcons, List.cons_append]
  exact x.sign.splitSign_text (ne_sign_of_isDigit hc) _

theorem splitExponent_text {rest : Text} (h : ∀ c ∈ rest.head?, Text.isDigit c = false) :
    splitExponent Text.isDigit (x.text ++ rest) = (x.text, rest) := by
  have hnonempty : x.digits.isEmpty = false := by simpa using x.ne_nil
  have hsign := x.splitSign_text rest
  have htake := Text.takeWhile_append_stop x.isDigit h
  have hdrop := Text.dropWhile_append_stop x.isDigit h
  unfold text
  rw [List.append_assoc, List.cons_append]
  unfold splitExponent
  simp only [hsign, htake, hdrop, x.isMark, hnonempty]
  rfl

theorem readExponent?_text : readExponent? x.text = some x.value := by
  have hsign := x.splitSign_text []
  rw [List.append_nil] at hsign
  have hnonempty : x.digits.isEmpty = false := by simpa using x.ne_nil
  have hall : x.digits.all Text.isDigit = true := List.all_eq_true.mpr x.isDigit
  unfold text
  rw [List.cons_append]
  unfold readExponent? value
  simp only [hsign, x.isMark, hnonempty, hall]
  rcases x.sign <;> rfl

theorem text_inj {x y : Exponent} (h : x.text = y.text) : x = y := by
  have hx := x.splitSign_text []
  have hy := y.splitSign_text []
  obtain ⟨mark, sign, digits, hmark, hne, hdigit⟩ := x
  obtain ⟨mark', sign', digits', hmark', hne', hdigit'⟩ := y
  obtain ⟨rfl, hrest⟩ := List.cons.inj h
  simp only [List.append_nil] at hx hy
  rw [show sign.text ++ digits = sign'.text ++ digits' from hrest, hy] at hx
  obtain ⟨hsign, rfl⟩ := Prod.mk.inj hx
  obtain rfl := Sign.text_inj hsign
  rfl

end Exponent

/-! ## Taking a literal off a text -/

namespace Literal

variable (l : Literal)

/-- An exponent does not continue a mantissa. -/
theorem head?_exponentText {rest : Text} (h : EndsNumeral rest) :
    ∀ c ∈ (l.exponentText ++ rest).head?, Text.isDigit c = false ∧ c ≠ '.' := by
  unfold exponentText
  cases l.exponent with
  | none => exact h.1
  | some x =>
    rintro c ⟨⟩
    refine ⟨isDigit_of_isExponentMark x.isMark, ?_⟩
    intro hdot
    exact absurd (hdot ▸ x.isMark) (by decide)

theorem splitExponent_exponentText {rest : Text} (h : EndsNumeral rest) :
    splitExponent Text.isDigit (l.exponentText ++ rest) = (l.exponentText, rest) := by
  unfold exponentText
  cases l.exponent with
  | none => exact h.2
  | some x => exact x.splitExponent_text h.head?

/-- Where the whole part ends. -/
theorem head?_pointText {rest : Text} (h : ∀ c ∈ rest.head?, Text.isDigit c = false ∧ c ≠ '.') :
    ∀ c ∈ (l.pointText ++ rest).head?, Text.isDigit c = false := by
  unfold pointText
  cases l.fraction with
  | none => exact fun c hc => (h c hc).1
  | some f =>
    rintro c ⟨⟩
    exact isDigit_dot

theorem splitMantissa?_mantissa {rest : Text}
    (h : ∀ c ∈ rest.head?, Text.isDigit c = false ∧ c ≠ '.') :
    splitMantissa? (l.mantissa ++ rest) = some (l.mantissa, rest) := by
  have hstop := l.head?_pointText h
  have htake := Text.takeWhile_append_stop l.isDigit_of_mem_whole hstop
  have hdrop := Text.dropWhile_append_stop l.isDigit_of_mem_whole hstop
  unfold mantissa
  rw [List.append_assoc]
  unfold splitMantissa?
  rw [htake, hdrop]
  dsimp only
  cases hfraction : l.fraction with
  | none =>
    rw [pointText_of_none hfraction, List.nil_append, List.append_nil]
    split
    · exact absurd rfl (h '.' rfl).2
    · rw [isEmpty_whole hfraction]
      rfl
  | some f =>
    have hdigits := l.isDigit_of_mem_fraction hfraction
    have hrest : ∀ c ∈ rest.head?, Text.isDigit c = false := fun c hc => (h c hc).1
    rw [pointText_of_some hfraction, List.cons_append]
    simp only [Text.takeWhile_append_stop hdigits hrest, Text.dropWhile_append_stop hdigits hrest,
      isEmpty_whole_fraction hfraction]
    rfl

theorem splitUnsigned?_text {rest : Text} (h : EndsNumeral rest) :
    splitUnsigned? (l.text ++ rest) = some (l.text, rest) := by
  unfold splitUnsigned? text
  rw [List.append_assoc, l.splitMantissa?_mantissa (l.head?_exponentText h)]
  simp only [l.splitExponent_exponentText h]

theorem splitSign_text (s : Sign) (t : Text) :
    splitSign (s.text ++ (l.text ++ t)) = (s.text, l.text ++ t) := by
  obtain ⟨c, rest, htext, hc⟩ := l.exists_text_cons
  have hne : c ≠ '+' ∧ c ≠ '-' := by
    rcases hc with hdigit | rfl
    · exact ne_sign_of_isDigit hdigit
    · decide
  rw [htext, List.cons_append]
  exact s.splitSign_text hne _

/-- **Completeness.** In front of what does not continue it a literal is taken off whole. -/
theorem splitNumber?_text (s : Sign) {rest : Text} (h : EndsNumeral rest) :
    splitNumber? (s.text ++ l.text ++ rest) = some (s.text ++ l.text, rest) := by
  unfold splitNumber?
  rw [List.append_assoc]
  simp only [l.splitSign_text, l.splitUnsigned?_text h]

/-! ## Only literals are taken off -/

theorem exists_of_splitMantissa? {t m rest : Text} (h : splitMantissa? t = some (m, rest)) :
    ∃ l : Literal, l.exponent = none ∧ l.mantissa = m ∧ t = m ++ rest := by
  have hwhole : ∀ c ∈ t.takeWhile Text.isDigit, Text.isDigit c = true :=
    fun c hc => List.mem_takeWhile_imp hc
  have ht := List.takeWhile_append_dropWhile (p := Text.isDigit) (l := t)
  unfold splitMantissa? at h
  dsimp only at h
  split at h
  · next more hmore =>
    split at h
    · cases h
    · next hsome =>
      cases h
      rw [Bool.and_eq_true, List.isEmpty_iff, List.isEmpty_iff] at hsome
      refine ⟨⟨t.takeWhile Text.isDigit, some (more.takeWhile Text.isDigit), none, ?_, ?_⟩,
        rfl, rfl, ?_⟩
      · rw [ne_eq, List.append_eq_nil_iff]
        exact hsome
      · intro c hc
        rcases List.mem_append.mp hc with hc | hc
        · exact hwhole c hc
        · exact List.mem_takeWhile_imp hc
      · rw [List.append_assoc, List.cons_append, List.takeWhile_append_dropWhile, ← hmore, ht]
  · split at h
    · cases h
    · next hsome =>
      cases h
      rw [List.isEmpty_iff] at hsome
      refine ⟨⟨t.takeWhile Text.isDigit, none, none, ?_, ?_⟩, rfl, List.append_nil _, ht.symm⟩
      · rw [Option.getD_none, List.append_nil]
        exact hsome
      · rw [Option.getD_none, List.append_nil]
        exact hwhole

theorem exists_of_splitSign (t : Text) : ∃ s : Sign, s.text = (splitSign t).1 := by
  unfold splitSign
  split
  · exact ⟨.plus, rfl⟩
  · exact ⟨.minus, rfl⟩
  · exact ⟨.absent, rfl⟩

theorem exists_of_splitExponent (t : Text) :
    ∃ x : Option Exponent, x.elim [] Exponent.text = (splitExponent Text.isDigit t).1 := by
  cases t with
  | nil => exact ⟨none, rfl⟩
  | cons c rest =>
    unfold splitExponent
    dsimp only
    split
    · next hwhole =>
      rw [Bool.and_eq_true, Bool.not_eq_true', List.isEmpty_eq_false_iff] at hwhole
      obtain ⟨s, hs⟩ := exists_of_splitSign rest
      refine ⟨some ⟨c, s, (splitSign rest).2.takeWhile Text.isDigit, hwhole.1, hwhole.2, ?_⟩, ?_⟩
      · exact fun d hd => List.mem_takeWhile_imp hd
      · rw [← hs]
        rfl
    · exact ⟨none, rfl⟩

/-- A mantissa with the exponent behind it is a literal. -/
theorem exists_of_splitUnsigned? {t number rest : Text} (h : splitUnsigned? t = some (number, rest)) :
    ∃ l : Literal, l.text = number ∧ t = number ++ rest := by
  unfold splitUnsigned? at h
  split at h
  · cases h
  · next m tail hm =>
    cases h
    obtain ⟨l, -, hl, ht⟩ := exists_of_splitMantissa? hm
    obtain ⟨x, hx⟩ := exists_of_splitExponent tail
    refine ⟨⟨l.whole, l.fraction, x, l.ne_nil, l.isDigit⟩, ?_, ?_⟩
    · rw [← hl, ← hx]
      rfl
    · rw [List.append_assoc, splitExponent_append, ht]

/-- **Soundness.** What is taken off a text is a literal, perhaps with a sign. -/
theorem exists_of_splitNumber? {t number rest : Text} (h : splitNumber? t = some (number, rest)) :
    ∃ (s : Sign) (l : Literal), s.text ++ l.text = number ∧ t = number ++ rest := by
  unfold splitNumber? at h
  dsimp only at h
  split at h
  · cases h
  · next unsigned tail hunsigned =>
    cases h
    obtain ⟨s, hs⟩ := exists_of_splitSign t
    obtain ⟨l, hl, ht⟩ := exists_of_splitUnsigned? hunsigned
    refine ⟨s, l, by rw [hs, hl], ?_⟩
    rw [List.append_assoc, ← ht, splitSign_append]

/-! ## One way only -/

/-- There is a point in both or in neither, and the fraction is the run of digits behind it. -/
theorem pointText_append_inj {l l' : Literal} {r r' : Text}
    (hr : ∀ c ∈ r.head?, Text.isDigit c = false ∧ c ≠ '.')
    (hr' : ∀ c ∈ r'.head?, Text.isDigit c = false ∧ c ≠ '.')
    (h : l.pointText ++ r = l'.pointText ++ r') : l.fraction = l'.fraction ∧ r = r' := by
  cases hf : l.fraction with
  | none =>
    rw [pointText_of_none hf, List.nil_append] at h
    cases hf' : l'.fraction with
    | none =>
      rw [pointText_of_none hf', List.nil_append] at h
      exact ⟨rfl, h⟩
    | some f' =>
      rw [pointText_of_some hf', List.cons_append] at h
      rw [h] at hr
      exact absurd rfl (hr '.' rfl).2
  | some f =>
    rw [pointText_of_some hf, List.cons_append] at h
    cases hf' : l'.fraction with
    | none =>
      rw [pointText_of_none hf', List.nil_append] at h
      rw [← h] at hr'
      exact absurd rfl (hr' _ rfl).2
    | some f' =>
      rw [pointText_of_some hf', List.cons_append] at h
      obtain ⟨rfl, hrest⟩ := Text.append_stop_inj (l.isDigit_of_mem_fraction hf)
        (fun c hc => (hr c hc).1) (l'.isDigit_of_mem_fraction hf') (fun c hc => (hr' c hc).1)
        (List.cons.inj h).2
      exact ⟨rfl, hrest⟩

theorem exponentText_inj {l l' : Literal} (h : l.exponentText = l'.exponentText) :
    l.exponent = l'.exponent := by
  unfold exponentText at h
  cases hx : l.exponent with
  | none =>
    cases hx' : l'.exponent with
    | none => rfl
    | some x' =>
      rw [hx, hx'] at h
      cases h
  | some x =>
    cases hx' : l'.exponent with
    | none =>
      rw [hx, hx'] at h
      cases h
    | some x' =>
      rw [hx, hx'] at h
      rw [Exponent.text_inj h]

/-- **Uniqueness.** A text can start with a literal in one way only, if what stands behind does not
continue it. -/
theorem text_append_inj {l l' : Literal} {r r' : Text} (hr : EndsNumeral r) (hr' : EndsNumeral r')
    (h : l.text ++ r = l'.text ++ r') : l = l' ∧ r = r' := by
  have hhead := l.head?_exponentText hr
  have hhead' := l'.head?_exponentText hr'
  unfold text mantissa at h
  simp only [List.append_assoc] at h
  -- the whole part is the run of digits at the front
  obtain ⟨hwhole, hpoint⟩ := Text.append_stop_inj l.isDigit_of_mem_whole (l.head?_pointText hhead)
    l'.isDigit_of_mem_whole (l'.head?_pointText hhead') h
  obtain ⟨hfraction, htail⟩ := pointText_append_inj hhead hhead' hpoint
  have hexponent := l.splitExponent_exponentText hr
  rw [htail, l'.splitExponent_exponentText hr'] at hexponent
  obtain ⟨htext, rfl⟩ := Prod.mk.inj hexponent
  have hexponent := exponentText_inj htext
  obtain ⟨whole, fraction, exponent, hne, hdigit⟩ := l
  obtain ⟨whole', fraction', exponent', hne', hdigit'⟩ := l'
  obtain rfl : whole = whole' := hwhole
  obtain rfl : fraction = fraction' := hfraction
  obtain rfl : exponent' = exponent := hexponent
  exact ⟨rfl, rfl⟩

/-! ## Reading a literal -/

theorem readExponent?_exponentText : readExponent? l.exponentText = some l.exponentValue := by
  unfold exponentText exponentValue
  cases l.exponent with
  | none => rfl
  | some x => exact x.readExponent?_text

theorem readDecimal?_text (negative : Bool) :
    readDecimal? negative l.text = some (l.decimal negative) := by
  have hhead := l.head?_exponentText endsNumeral_nil
  rw [List.append_nil] at hhead
  have htake := Text.takeWhile_append_stop l.isDigit_of_mem_whole (l.head?_pointText hhead)
  have hdrop := Text.dropWhile_append_stop l.isDigit_of_mem_whole (l.head?_pointText hhead)
  unfold text mantissa
  rw [List.append_assoc]
  unfold readDecimal?
  rw [htake, hdrop]
  dsimp only
  cases hfraction : l.fraction with
  | none =>
    rw [pointText_of_none hfraction, List.nil_append]
    split
    · next heq =>
      rw [heq] at hhead
      exact absurd rfl (hhead '.' rfl).2
    · simp [isEmpty_whole hfraction, l.readExponent?_exponentText, decimal, hfraction]
  | some f =>
    have hdigits := l.isDigit_of_mem_fraction hfraction
    have hrest : ∀ c ∈ l.exponentText.head?, Text.isDigit c = false := fun c hc => (hhead c hc).1
    rw [pointText_of_some hfraction, List.cons_append]
    simp only [Text.takeWhile_append_stop hdigits hrest, Text.dropWhile_append_stop hdigits hrest,
      isEmpty_whole_fraction hfraction, l.readExponent?_exponentText]
    simp [decimal, hfraction]

end Literal

theorem dropUnderscores?_of_none {t : Text} (h : '_' ∉ t) (afterDigit : Bool) :
    dropUnderscores? afterDigit t = some t := by
  induction t generalizing afterDigit with
  | nil => rfl
  | cons c t ih =>
    have hc : c ≠ '_' := by
      rintro rfl
      exact h List.mem_cons_self
    rw [dropUnderscores?.eq_def]
    simp only [if_neg hc]
    rw [ih (fun hmem => h (List.mem_cons_of_mem _ hmem))]
    rfl

namespace Literal

variable (l : Literal)

/-- A literal is not one of the words that read as a double. -/
theorem readUnsigned?_text (negative : Bool) :
    Binary64.readUnsigned? negative l.text = some (l.decimal negative).toDouble := by
  obtain ⟨c, t, htext, hc⟩ := l.exists_text_cons
  have hfirst : c.toLower ≠ 'i' ∧ c.toLower ≠ 'n' := by
    rcases hc with hdigit | rfl
    · refine Text.forall_isDigit (p := fun c => c.toLower ≠ 'i' ∧ c.toLower ≠ 'n') ?_ hdigit
      decide +kernel
    · decide
  have hword : ∀ (d : Char) (w : Text), c.toLower ≠ d → Text.asciiLower l.text ≠ d :: w := by
    intro d w hd heq
    rw [htext, Text.asciiLower, List.map_cons] at heq
    exact hd (List.head_eq_of_cons_eq heq)
  have hinf : Text.asciiLower l.text ≠ "inf".toList := hword 'i' _ hfirst.1
  have hinfinity : Text.asciiLower l.text ≠ "infinity".toList := hword 'i' _ hfirst.1
  have hnan : Text.asciiLower l.text ≠ "nan".toList := hword 'n' _ hfirst.2
  unfold Binary64.readUnsigned?
  rw [l.readDecimal?_text]
  simp only [hinf, hinfinity, hnan, decide_false, Bool.or_self, Bool.false_eq_true, if_false,
    Option.map_some]

theorem read?_text (s : Sign) :
    Binary64.read? (s.text ++ l.text) = some (l.decimal s.isMinus).toDouble := by
  have hspace : ∀ c ∈ s.text ++ l.text, Text.isWhiteSpace c = false := by
    intro c hc
    have hblank : Text.isBlank c = false := by
      rcases List.mem_append.mp hc with hsign | htext
      · rcases mem_sign_text hsign with rfl | rfl <;> decide
      · exact l.isBlank_of_mem_text htext
    exact (Bool.or_eq_false_iff.mp hblank).1
  have hsign := l.splitSign_text s []
  rw [List.append_nil] at hsign
  unfold Binary64.read?
  rw [Text.trimWhere_of_none hspace, dropUnderscores?_of_none (l.underscore_notMem s)]
  simp only [Option.bind_some, hsign, s.decide_text]
  exact l.readUnsigned?_text _

/-- The value of a literal is rounded once, with the sign in front of it. -/
theorem read?_eq_ofMagnitude (s : Sign) :
    Binary64.read? (s.text ++ l.text) = some (.ofMagnitude s.isMinus l.magnitude) := by
  rw [l.read?_text, Decimal.toDouble_eq, l.magnitude_decimal]
  rfl

/-- **Reading.** A literal reads as the finite double nearest to its value, if there is one. -/
theorem readFinite?_text_iff (s : Sign) {x : Binary64} :
    Binary64.readFinite? (s.text ++ l.text) = some x ↔ Binary64.IsNearest s.isMinus l.magnitude x := by
  rw [Binary64.isNearest_iff l.magnitude_nonneg, Binary64.readFinite?, l.read?_eq_ofMagnitude,
    Option.filter_some]
  constructor
  · intro h
    split at h
    · next hfinite =>
      cases h
      exact ⟨rfl, hfinite⟩
    · cases h
  · rintro ⟨rfl, hfinite⟩
    rw [if_pos hfinite]

end Literal

end CssValues
