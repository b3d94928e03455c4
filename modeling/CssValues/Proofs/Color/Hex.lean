import CssValues.Proofs.Color.Form
import CssValues.Proofs.Number.Order
import Mathlib.Data.Nat.Digits.Defs

/-!
# Colours written and read back

Every form that a colour is written in reads as that colour, and hexadecimal digits in any form are
brought into one by reading and writing them. Main result: `Color.read_serializations`.
-/

namespace CssValues

/-- Three or six hexadecimal digits, behind `#` or not, and the blanks around them. -/
structure HexText where
  before : Text.Blanks
  marked : Bool
  digits : Text
  after : Text.Blanks
  isHexDigit : ∀ d ∈ digits, Text.isHexDigit d = true
  length_eq : digits.length = 3 ∨ digits.length = 6

namespace HexText

variable (h : HexText)

/-- The digits behind the `#`, if there is one. -/
def literal : Text := if h.marked then '#' :: h.digits else h.digits

def text : Text := h.before.val ++ h.literal ++ h.after.val

/-- The six digits that are meant: of three each one counts twice. -/
def sixDigits : Text :=
  if h.digits.length = 3 then h.digits.flatMap fun d => [d, d] else h.digits

theorem trim_text : h.text.trim = h.literal := by
  have hplain : ∀ c ∈ h.literal, Text.isBlank c = false := by
    have hdigit : ∀ d ∈ h.digits, Text.isBlank d = false := by
      intro d hd
      have := Text.isHexDigit_iff.mp (h.isHexDigit d hd)
      exact Text.isBlank_of_printing (by omega) (by omega)
    unfold literal
    split
    · exact List.forall_mem_cons.mpr ⟨by decide, hdigit⟩
    · exact hdigit
  rw [Text.trim, text, Text.trimWhere_append h.before.property h.after.property,
    Text.trimWhere_of_none hplain]

/-- The digits are told from the `#`. -/
theorem ofHex?_text : Color.ofHex? h.text = Color.ofHexDigits? h.digits := by
  have hall : h.digits.all Text.isHexDigit = true := List.all_eq_true.mpr h.isHexDigit
  have htrim := h.trim_text
  unfold literal at htrim
  split at htrim
  · rw [Color.ofHex?_of_hash htrim, if_pos hall]
  · rw [Color.ofHex?_of_ne_hash, htrim, if_pos hall]
    intro hhash
    rw [htrim] at hhash
    exact absurd (h.isHexDigit '#' (List.mem_of_mem_head? hhash)) (by decide)

end HexText

namespace Channel

theorem ofInt_val (c : Channel) : ofInt c.val = c := Fin.ext (Color.val_ofInt (by omega))

/-- A channel is its own nearest one. -/
theorem ofNumber_toNumber (c : Channel) : ofNumber c.toNumber = .ok c := by
  have hrange : Max.max 0 (Min.min 255 (c.val : Int)) = c.val := by omega
  have hnumber : Number.max 0 (Number.min 255 c.toNumber) = .int c.val := by
    show (Number.int 0).max ((Number.int 255).min (.int c.val)) = .int c.val
    rw [Number.min_int, Number.max_int, hrange]
  rw [ofNumber, hnumber]
  exact congrArg Except.ok c.ofInt_val

end Channel

namespace Color

theorem ofNumbers_toNumber (c : Color) :
    ofNumbers c.red.toNumber c.green.toNumber c.blue.toNumber = .ok c := by
  unfold ofNumbers
  rw [Channel.ofNumber_toNumber, Channel.ofNumber_toNumber, Channel.ofNumber_toNumber]
  rfl

/-! ## Two digits for a channel -/

theorem val_hexChannel {a b : Char} (ha : Text.isHexDigit a = true) (hb : Text.isHexDigit b = true) :
    (hexChannel a b).val = Text.ofHexDigits [a, b] := by
  have := Text.ofHexDigits_lt ha hb
  exact val_ofInt (by omega)

theorem hex_hexChannel {a b : Char} (ha : Text.isHexDigit a = true)
    (hb : Text.isHexDigit b = true) :
    Text.hex 2 (hexChannel a b).val = Text.asciiLower [a, b] := by
  rw [val_hexChannel ha hb, Text.hex_ofHexDigits ha hb]

/-- The two digits of a channel. -/
theorem exists_hex_channel (c : Channel) : ∃ a b, Text.hex 2 c.val = [a, b]
    ∧ Text.isHexDigit a = true ∧ Text.isHexDigit b = true ∧ hexChannel a b = c := by
  have hdigit : ∀ k < 16, Text.isHexDigit (Nat.digitChar k) = true := by
    intro k hk
    rw [Text.isHexDigit, Text.hexValue?_digitChar k hk]
    rfl
  have hpair := Text.hex_eq_pair c.isLt
  refine ⟨_, _, hpair, hdigit _ (by omega), hdigit _ (by omega), ?_⟩
  rw [hexChannel, ← hpair, Text.ofHexDigits_hex c.isLt, Channel.ofInt_val]

/-! ## Hexadecimal digits -/

theorem hex_mk {a b c d e f : Char} (h : ∀ x ∈ [a, b, c, d, e, f], Text.isHexDigit x = true) :
    hex ⟨hexChannel a b, hexChannel c d, hexChannel e f⟩
      = '#' :: Text.asciiLower [a, b, c, d, e, f] := by
  simp only [List.forall_mem_cons] at h
  obtain ⟨ha, hb, hc, hd, he, hf, -⟩ := h
  simp only [hex, hex_hexChannel ha hb, hex_hexChannel hc hd, hex_hexChannel he hf]
  rfl

/-- **Canonical form.** Three or six digits are a colour, which is written with its six digits in
small letters. -/
theorem exists_ofHexDigits? (h : HexText) : ∃ c, ofHexDigits? h.digits = some c
    ∧ c.hex = '#' :: Text.asciiLower h.sixDigits := by
  obtain ⟨before, marked, digits, after, hdigit, hlength⟩ := h
  unfold HexText.sixDigits
  dsimp only
  rcases hlength with hthree | hsix
  · obtain ⟨a, b, c, rfl⟩ := List.length_eq_three.mp hthree
    simp only [List.forall_mem_cons] at hdigit
    refine ⟨_, rfl, ?_⟩
    rw [hex_mk]
    · rfl
    · simp [hdigit]
  · match digits, hsix with
    | [a, b, c, d, e, f], _ => exact ⟨_, rfl, hex_mk hdigit⟩

/-- What is read as digits is read. -/
theorem read_of_ofHex? {t : Text} {c : Color} (h : ofHex? t = some c) : read t = .ok c := by
  have hname : ofName? t = none := ofName?_eq_none_of_hex (mem_of_ofHex? h)
  have hblank : Text.isBlankText t = false := by
    rw [← Bool.not_eq_true]
    intro hblank
    have hnone := attempt_of_blank hblank .digits
    rw [Form.attempt, h] at hnone
    cases hnone
  unfold read
  rw [hblank, hname, h]
  rfl

/-- The hexadecimal form of a colour, with `#` or without. -/
theorem exists_hexText (c : Color) (marked : Bool) : ∃ h : HexText,
    h.text = (if marked then c.hex else c.hex.tail) ∧ ofHexDigits? h.digits = some c := by
  obtain ⟨red, green, blue⟩ := c
  obtain ⟨a, b, hred, ha, hb, rfl⟩ := exists_hex_channel red
  obtain ⟨d, e, hgreen, hd, he, rfl⟩ := exists_hex_channel green
  obtain ⟨f, g, hblue, hf, hg, rfl⟩ := exists_hex_channel blue
  refine ⟨⟨.none, marked, [a, b, d, e, f, g], .none, ?_, .inr rfl⟩, ?_, rfl⟩
  · simp [ha, hb, hd, he, hf, hg]
  · simp only [HexText.text, HexText.literal, hex, hred, hgreen, hblue, Text.Blanks.none]
    cases marked <;> rfl

/-! ## The form of a function -/

/-- A channel as it is written. -/
def channelText (before : Text.Blanks) (c : Channel) : ChannelText where
  before := before
  digits := Text.ofNat c.val
  after := .none
  ne_nil := Text.ofNat_ne_nil _
  isDigit := fun _ h => Text.isDigit_of_isAsciiDigit (Text.isAsciiDigit_of_mem_ofNat h)

theorem value_channelText (before : Text.Blanks) (c : Channel) :
    (channelText before c).value = c.val := Text.ofDigits_ofNat _

theorem isShort_channelText (before : Text.Blanks) (c : Channel) :
    (channelText before c).IsShort := by
  have hlength : (Text.ofNat c.val).length ≤ 3 := Nat.toDigits_length 10 c.val 3 (by omega) (by omega)
  exact hlength.trans (by decide)

/-- A colour in the form of a function as it is written. -/
def rgbText (c : Color) : RgbText where
  before := .none
  name := ['r', 'g', 'b']
  red := channelText .none c.red
  green := channelText .space c.green
  blue := channelText .space c.blue
  alpha := none
  after := .none
  isName := .inl rfl

theorem text_rgbText (c : Color) : c.rgbText.text = c.rgb := by
  simp [rgbText, RgbText.text, RgbText.listText, RgbText.alphaText, ChannelText.text, channelText,
    rgb, channelList, Text.join, Text.Blanks.none, Text.Blanks.space]

theorem read_rgb (c : Color) : read c.rgb = .ok c := by
  have hshort : ∀ d ∈ c.rgbText.channels, d.IsShort := by
    simp [RgbText.channels, rgbText, isShort_channelText]
  rw [← text_rgbText, read_rgbText _ hshort, if_pos]
  · simp only [rgbText, value_channelText, ofLevels, Channel.ofInt_val]
  · simp only [RgbText.channels, rgbText, List.forall_mem_cons, value_channelText]
    exact ⟨by omega, by omega, by omega, List.forall_mem_nil _⟩

/-! ## Main result -/

/-- **Round trips.** A colour is read back from its hexadecimal form, with `#` and without, from the
form of a function, and from its channels by their names. Three or six hexadecimal digits are
written as six digits in small letters behind `#`. -/
theorem read_serializations :
    (∀ c : Color, read c.hex = .ok c ∧ read c.rgb = .ok c
      ∧ (∃ digits, c.hex = '#' :: digits ∧ ofHex? digits = some c)
      ∧ ∃ channels, c.toEntries = Entries.mapValues .number channels ∧ ofEntries channels = .ok c)
    ∧ ∀ h : HexText, ∃ c, read h.text = .ok c ∧ c.hex = '#' :: Text.asciiLower h.sixDigits := by
  refine ⟨fun c => ⟨?_, read_rgb c, ?_, ?_⟩, fun h => ?_⟩
  · obtain ⟨h, htext, hdigits⟩ := exists_hexText c true
    rw [if_pos rfl] at htext
    rw [← htext, read_of_ofHex?]
    rw [h.ofHex?_text, hdigits]
  · obtain ⟨h, htext, hdigits⟩ := exists_hexText c false
    rw [if_neg (by decide)] at htext
    refine ⟨c.hex.tail, rfl, ?_⟩
    rw [← htext, h.ofHex?_text, hdigits]
  · refine ⟨[(['r'], c.red.toNumber), (['g'], c.green.toNumber), (['b'], c.blue.toNumber)], rfl, ?_⟩
    show orFault (ofNumbers c.red.toNumber c.green.toNumber c.blue.toNumber) = .ok c
    rw [ofNumbers_toNumber]
    rfl
  · obtain ⟨c, hdigits, hhex⟩ := exists_ofHexDigits? h
    refine ⟨c, read_of_ofHex? ?_, hhex⟩
    rw [h.ofHex?_text, hdigits]

/-- Three digits behind blanks, one of them a capital. -/
example : (read " #aBc".toList).map hex = .ok "#aabbcc".toList := by rfl

end Color

end CssValues
