import CssValues.Number.Layout
import CssValues.Proofs.Number.Literal

/-!
# Positional numerals

The numbers of style values are written as digits, perhaps with a point and more digits, never with
an exponent. Such a numeral is a literal (`Numeral.toLiteral`) and reads as the double nearest to its
value (`Numeral.readFinite?_text`).
-/

namespace CssValues

/-- Digits, and perhaps a point with digits behind it. -/
structure Numeral where
  whole : Text
  /-- The digits behind the point; without any there is no point. -/
  fraction : Text
  whole_ne_nil : whole ≠ []
  digits : ∀ c ∈ whole ++ fraction, Text.isAsciiDigit c = true

namespace Numeral

def text (n : Numeral) : Text :=
  if n.fraction = [] then n.whole else n.whole ++ '.' :: n.fraction

/-- The number that a numeral stands for. -/
def decimal (n : Numeral) (negative : Bool) : Decimal :=
  ⟨negative, Text.ofDigits (n.whole ++ n.fraction), -(n.fraction.length : Int)⟩

/-- The numeral of a natural number. -/
def ofNat (n : Nat) : Numeral :=
  ⟨Text.ofNat n, [], Text.ofNat_ne_nil n, by simpa using fun _ => Text.isAsciiDigit_of_mem_ofNat⟩

/-! ## Characters -/

theorem isDigit_of_mem_whole (n : Numeral) : ∀ c ∈ n.whole, Text.isDigit c = true :=
  fun c hc => Text.isDigit_of_isAsciiDigit (n.digits c (List.mem_append_left _ hc))

theorem isDigit_of_mem_fraction (n : Numeral) : ∀ c ∈ n.fraction, Text.isDigit c = true :=
  fun c hc => Text.isDigit_of_isAsciiDigit (n.digits c (List.mem_append_right _ hc))

end Numeral

/-! ## The literal of a numeral -/

theorem signed_eq (negative : Bool) (t : Text) :
    signed negative t = (Sign.ofNegative negative).text ++ t := by
  cases negative <;> rfl

theorem isMinus_ofNegative (negative : Bool) : (Sign.ofNegative negative).isMinus = negative := by
  cases negative <;> rfl

namespace Numeral

/-- A numeral as a literal without exponent. -/
def toLiteral (n : Numeral) : Literal where
  whole := n.whole
  fraction := if n.fraction = [] then none else some n.fraction
  exponent := none
  ne_nil := fun h => n.whole_ne_nil (List.append_eq_nil_iff.mp h).1
  isDigit := by
    intro c hc
    rcases List.mem_append.mp hc with hwhole | hfraction
    · exact n.isDigit_of_mem_whole c hwhole
    · split at hfraction
      · cases hfraction
      · exact n.isDigit_of_mem_fraction c hfraction

theorem mantissa_toLiteral (n : Numeral) : n.toLiteral.mantissa = n.text := by
  unfold Literal.mantissa Literal.pointText toLiteral text
  by_cases h : n.fraction = [] <;> simp [h]

theorem text_toLiteral (n : Numeral) : n.toLiteral.text = n.text := by
  rw [← n.mantissa_toLiteral]
  exact List.append_nil _

theorem decimal_toLiteral (n : Numeral) (negative : Bool) :
    n.toLiteral.decimal negative = n.decimal negative := by
  unfold Literal.decimal Literal.exponentValue toLiteral decimal
  by_cases h : n.fraction = [] <;> simp [h]

/-- **Reading.** A numeral reads as the double nearest to its value. -/
theorem readFinite?_text (n : Numeral) {negative : Bool} {x : Binary64}
    (hvalue : (n.decimal negative).toDouble = x) (hx : x.isFinite = true) :
    Binary64.readFinite? (signed negative n.text) = some x := by
  rw [signed_eq, ← n.text_toLiteral, Binary64.readFinite?, n.toLiteral.read?_text,
    isMinus_ofNegative, n.decimal_toLiteral, hvalue, Option.filter_some, if_pos hx]

end Numeral

end CssValues
