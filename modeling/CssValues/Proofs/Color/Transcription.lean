import CssValues.Color.Reading
import CssValues.Proofs.Entries
import CssValues.Proofs.Text.Folding
import CssValues.Proofs.Text.HexDigits

/-!
# Colours in another transcription

A colour in the form of a function stays the same colour when it is transcribed (`Color.ofRgb_map`). In
whatever form it is written, the case of ASCII letters does not count (`Color.read_asciiLower`).
-/

namespace CssValues.Color

open Text (IsTranscription asciiLower mapBoth)

/-! ## Functions -/

section

variable {f : Char → Char} (hf : IsTranscription f)

include hf

theorem dropOpening?_map (t : Text) : dropOpening? (t.map f) = (dropOpening? t).map (List.map f) := by
  have hlong := hf.asciiLower_eq_iff (w := ['r', 'g', 'b', 'a', '(']) (by decide) (t.take 5)
  have hshort := hf.asciiLower_eq_iff (w := ['r', 'g', 'b', '(']) (by decide) (t.take 4)
  unfold dropOpening?
  rw [← List.map_take, ← List.map_take, ← List.map_drop, ← List.map_drop]
  simp only [hlong, hshort]
  split
  · rfl
  · split <;> rfl

theorem splitDigits?_map (t : Text) : splitDigits? (t.map f) = (splitDigits? t).map (mapBoth f) := by
  unfold splitDigits?
  simp only [Text.dropWhile_map hf.blank, Text.takeWhile_map hf.isDigit, Text.dropWhile_map hf.isDigit,
    List.isEmpty_map]
  split <;> rfl

theorem dropComma?_map (t : Text) : dropComma? (t.map f) = (dropComma? t).map (List.map f) := by
  have hother : ∀ (c : Char) (t : Text), c ≠ ',' → dropComma? (c :: t) = none := by
    intro c t hc
    unfold dropComma?
    split
    · next heq => exact absurd (List.cons.inj heq).1 hc
    · rfl
  cases t with
  | nil => rfl
  | cons c t =>
    by_cases hcomma : c = ','
    · subst hcomma
      simp only [List.map_cons, hf.apply_mark (d := ',') (by decide), dropComma?, Option.map_some]
    · rw [hother c t hcomma, List.map_cons, hother _ _ (mt (hf.mark c ',' (by decide)).mp hcomma)]
      rfl

theorem map_eq_close_iff (t : Text) : t.map f = [')'] ↔ t = [')'] := by
  refine ⟨fun h => ?_, fun h => ?_⟩
  · obtain ⟨c, rfl, hc⟩ := List.map_eq_singleton_iff.mp h
    rw [(hf.mark c ')' (by decide)).mp hc]
  · rw [h, List.map_singleton, hf.apply_mark (by decide)]

theorem isAlphaEnd_map (t : Text) : isAlphaEnd (t.map f) = isAlphaEnd t := by
  unfold isAlphaEnd
  simp only [Text.dropWhile_map hf.blank, Text.takeWhile_map hf.isDigit, Text.dropWhile_map hf.isDigit,
    List.isEmpty_map]
  cases hrest : (t.dropWhile Text.isBlank).dropWhile Text.isDigit with
  | nil => rfl
  | cons c rest =>
    by_cases hdot : c = '.'
    · subst hdot
      simp only [List.map_cons, hf.apply_mark (d := '.') (by decide), Text.takeWhile_map hf.isDigit,
        Text.dropWhile_map hf.isDigit, Text.dropWhile_map hf.blank, List.isEmpty_map,
        map_eq_close_iff hf]
    · have hdot' : f c ≠ '.' := mt (hf.mark c '.' (by decide)).mp hdot
      rw [List.map_cons]
      split
      · next heq => exact absurd (List.cons.inj heq).1 hdot'
      split
      · next heq => exact absurd (List.cons.inj heq).1 hdot
      · rw [← List.map_cons]
        simp only [Text.dropWhile_map hf.blank, map_eq_close_iff hf]

theorem isListEnd_map (t : Text) : isListEnd (t.map f) = isListEnd t := by
  unfold isListEnd
  rw [dropComma?_map hf]
  cases dropComma? t with
  | none => simp only [Option.map_none, map_eq_close_iff hf]
  | some rest => exact isAlphaEnd_map hf rest

theorem splitRgb?_map (t : Text) : splitRgb? (t.map f)
    = (splitRgb? t).map fun (red, green, blue) => (red.map f, green.map f, blue.map f) := by
  unfold splitRgb?
  rw [hf.trim_map, dropOpening?_map hf]
  cases dropOpening? t.trim with
  | none => rfl
  | some rest =>
  simp only [Option.map_some, Option.bind_eq_bind, Option.bind_some, splitDigits?_map hf]
  cases splitDigits? rest with
  | none => rfl
  | some parts =>
  simp only [Option.map_some, Option.bind_some, mapBoth, dropComma?_map hf]
  cases dropComma? parts.2 with
  | none => rfl
  | some rest =>
  simp only [Option.map_some, Option.bind_some, splitDigits?_map hf]
  cases splitDigits? rest with
  | none => rfl
  | some green =>
  simp only [Option.map_some, Option.bind_some, mapBoth, dropComma?_map hf]
  cases dropComma? green.2 with
  | none => rfl
  | some rest =>
  simp only [Option.map_some, Option.bind_some, splitDigits?_map hf]
  cases splitDigits? rest with
  | none => rfl
  | some blue =>
  simp only [Option.map_some, Option.bind_some, mapBoth, isListEnd_map hf]
  split <;> rfl

/-- **Functions.** A colour in the form of a function stays the same colour. -/
theorem ofRgb_map (t : Text) : ofRgb (t.map f) = ofRgb t := by
  have hdigits : ∀ digits : Text, readDigits (digits.map f) = readDigits digits := by
    intro digits
    rw [readDigits, readDigits, List.length_map, hf.ofDigits_map]
  unfold ofRgb
  rw [splitRgb?_map hf]
  cases splitRgb? t with
  | none => rfl
  | some channels =>
    obtain ⟨red, green, blue⟩ := channels
    simp only [Option.map_some, List.mapM_cons, hdigits]

end

/-! ## Names and hexadecimal digits -/

theorem ofName?_asciiLower (t : Text) : ofName? (asciiLower t) = ofName? t := by
  have hascii : ∀ w ∈ Entries.keys named, ∀ d ∈ w, d.toNat < 0x80 := by decide
  rw [ofName?, ofName?, asciiLower, Text.isTranscription_toLower.trim_map]
  exact Entries.get?_congr fun w hw => Text.lower_asciiLower_eq_iff (hascii w hw) t.trim

theorem ofHexDigits?_asciiLower (t : Text) : ofHexDigits? (asciiLower t) = ofHexDigits? t := by
  have hchannel : ∀ high low : Char, hexChannel high.toLower low.toLower = hexChannel high low := by
    intro high low
    exact congrArg (fun n : Nat => Channel.ofInt n) (Text.ofHexDigits_asciiLower [high, low])
  unfold asciiLower
  match t with
  | [] | [_] | [_, _] | [_, _, _, _] | [_, _, _, _, _] | _ :: _ :: _ :: _ :: _ :: _ :: _ :: _ => rfl
  | [r, g, b] | [r, r', g, g', b, b'] => simp only [List.map_cons, List.map_nil, ofHexDigits?, hchannel]

theorem ofHex?_asciiLower (t : Text) : ofHex? (asciiLower t) = ofHex? t := by
  have hall : ∀ t : Text, (t.map Char.toLower).all Text.isHexDigit = t.all Text.isHexDigit :=
    Text.all_map Text.isHexDigit_toLower
  have hdigits : ∀ t : Text, ofHexDigits? (t.map Char.toLower) = ofHexDigits? t :=
    ofHexDigits?_asciiLower
  unfold ofHex? asciiLower
  rw [Text.isTranscription_toLower.trim_map]
  cases t.trim with
  | nil => rfl
  | cons c rest =>
    by_cases hhash : c = '#'
    · subst hhash
      show (if (rest.map Char.toLower).all Text.isHexDigit then ofHexDigits? (rest.map Char.toLower)
        else none) = if rest.all Text.isHexDigit then ofHexDigits? rest else none
      rw [hall, hdigits]
    · have hhash' : c.toLower ≠ '#' := mt (Text.toLower_eq_iff (by decide)).mp hhash
      rw [List.map_cons]
      split
      · next heq => exact absurd (List.cons.inj heq).1 hhash'
      split
      · next heq => exact absurd (List.cons.inj heq).1 hhash
      · rw [← List.map_cons]
        simp only [hall, hdigits]

/-- **Case.** Whether a text is a colour, and which, does not depend on the case of its letters. -/
theorem read_asciiLower (t : Text) : read (asciiLower t) = read t := by
  have hrgb : ofRgb (asciiLower t) = ofRgb t := ofRgb_map Text.isTranscription_toLower t
  have hblank : Text.isBlankText (asciiLower t) = Text.isBlankText t :=
    Text.isTranscription_toLower.isBlankText_map t
  rw [read, read, hblank, ofName?_asciiLower, ofHex?_asciiLower, hrgb]

end CssValues.Color
