import CssValues.Proofs.Number.Numeral
import Mathlib.Data.Rat.Lemmas
import Mathlib.Tactic.FieldSimp

/-!
# Written numbers read back

The style form of a finite double is a sign and a positional numeral, and it reads back as the
double; the negative zero alone is written, and hence read, as the positive one
(`Binary64.exists_numeral_plain`).
-/

namespace CssValues

/-! ## Digits with a point put in -/

namespace Numeral

theorem magnitude_decimal_mk (whole fraction : Text) (hne : whole ≠ [])
    (hd : ∀ c ∈ whole ++ fraction, Text.isAsciiDigit c = true) (negative : Bool) :
    (decimal ⟨whole, fraction, hne, hd⟩ negative).magnitude
      = (Text.ofDigits (whole ++ fraction) : Rat) * 10 ^ (-(fraction.length : Int)) := rfl

theorem isAsciiDigit_of_mem_replicate {k : Nat} {c : Char} (h : c ∈ List.replicate k '0') :
    Text.isAsciiDigit c = true := by
  rw [List.eq_of_mem_replicate h]
  decide

theorem isAsciiDigit_of_mem_append {s t : Text} (hs : ∀ c ∈ s, Text.isAsciiDigit c = true)
    (ht : ∀ c ∈ t, Text.isAsciiDigit c = true) : ∀ c ∈ s ++ t, Text.isAsciiDigit c = true :=
  fun c hc => (List.mem_append.mp hc).elim (hs c) (ht c)

/-- Whatever the exponent, the digits of a coefficient are laid out as a numeral of its value. -/
theorem exists_text_eq_positional (c : Nat) (e : Int) :
    ∃ n : Numeral, n.text = positional c e
      ∧ ∀ negative, (n.decimal negative).magnitude = (c : Rat) * 10 ^ e := by
  have hdigits : ∀ d ∈ Text.ofNat c, Text.isAsciiDigit d = true :=
    fun _ => Text.isAsciiDigit_of_mem_ofNat
  unfold positional
  dsimp only
  split
  · -- zeros behind the digits
    next he =>
    refine ⟨⟨Text.ofNat c ++ List.replicate e.toNat '0', [], by simp [Text.ofNat_ne_nil], ?_⟩,
      rfl, fun _ => ?_⟩
    · rw [List.append_nil]
      exact isAsciiDigit_of_mem_append hdigits fun _ => isAsciiDigit_of_mem_replicate
    · rw [magnitude_decimal_mk, List.append_nil, Text.ofDigits_append, Text.ofDigits_ofNat,
        Text.ofDigits_zeros, List.length_replicate]
      obtain ⟨k, rfl⟩ := Int.eq_ofNat_of_zero_le he
      simp
  · next he =>
    have hplaces : -((-e).toNat : Int) = e := by omega
    split
    · -- the point among the digits
      next hlt =>
      have htake : 0 < (Text.ofNat c).length - (-e).toNat := by omega
      refine ⟨⟨(Text.ofNat c).take ((Text.ofNat c).length - (-e).toNat),
        (Text.ofNat c).drop ((Text.ofNat c).length - (-e).toNat), ?_, ?_⟩, ?_, fun _ => ?_⟩
      · exact List.ne_nil_of_length_pos (by rw [List.length_take]; omega)
      · rw [List.take_append_drop]
        exact hdigits
      · exact if_neg (List.ne_nil_of_length_pos (by rw [List.length_drop]; omega))
      · rw [magnitude_decimal_mk, List.take_append_drop, Text.ofDigits_ofNat, List.length_drop,
          show (Text.ofNat c).length - ((Text.ofNat c).length - (-e).toNat) = (-e).toNat by omega,
          hplaces]
    · -- zeros in front of the digits
      next hge =>
      have hlen : (List.replicate ((-e).toNat - (Text.ofNat c).length) '0' ++ Text.ofNat c).length
          = (-e).toNat := by
        rw [List.length_append, List.length_replicate]
        omega
      refine ⟨⟨['0'], List.replicate ((-e).toNat - (Text.ofNat c).length) '0' ++ Text.ofNat c,
        by simp, ?_⟩, ?_, fun _ => ?_⟩
      · exact isAsciiDigit_of_mem_append (s := ['0']) (by simp [Text.isAsciiDigit])
          (isAsciiDigit_of_mem_append (fun _ => isAsciiDigit_of_mem_replicate) hdigits)
      · exact if_neg (List.ne_nil_of_length_pos (by rw [hlen]; omega))
      · rw [magnitude_decimal_mk, hlen, hplaces, Text.ofDigits_append, Text.ofDigits_append,
          Text.ofDigits_ofNat, Text.ofDigits_zeros]
        simp [Text.ofDigits, Text.digitValue?_of_isAsciiDigit (by decide : Text.isAsciiDigit '0')]

theorem ofNat_decimal_magnitude (n : Nat) (negative : Bool) :
    ((ofNat n).decimal negative).magnitude = n := by
  rw [ofNat, magnitude_decimal_mk]
  simp [Text.ofDigits_ofNat]

end Numeral

/-! ## Doubles in the form of style values -/

namespace Binary64

/-- The number, with the positive zero in place of the negative one. -/
def unsignZero (x : Binary64) : Binary64 := if x.isZero then zero false else x

theorem exact_eq (negative : Bool) (m : Nat) (e : Int) :
    exact negative m e = if negative then -exact false m e else exact false m e := rfl

theorem exact_nonneg (m : Nat) (e : Int) : 0 ≤ exact false m e := by
  unfold exact
  simp only [Bool.false_eq_true, if_false]
  positivity

theorem exact_pos {m : Nat} (hm : m ≠ 0) (e : Int) : 0 < exact false m e :=
  mul_pos (by exact_mod_cast Nat.pos_of_ne_zero hm) (by positivity)

theorem exact_zero (negative : Bool) (e : Int) : exact negative 0 e = 0 := by
  simp [exact]

/-- The sign of the exact value is the sign bit, zero apart. -/
theorem exact_num_neg {m : Nat} (hm : m ≠ 0) (negative : Bool) (e : Int) :
    decide ((exact negative m e).num < 0) = negative := by
  have hpos := exact_pos hm e
  cases negative with
  | false => simpa using hpos.le
  | true =>
    rw [exact_eq]
    simpa using hpos

theorem natAbs_exact_num (negative : Bool) (m : Nat) (e : Int) :
    (exact negative m e).num.natAbs = (exact false m e).num.natAbs := by
  cases negative with
  | false => rfl
  | true => simp [exact_eq true]

/-- The numeral of an integral value is its exact value. -/
theorem natAbs_num_eq_exact {negative : Bool} {m : Nat} {e : Int}
    (h : (exact negative m e).den = 1) :
    ((exact negative m e).num.natAbs : Rat) = exact false m e := by
  have hden : (exact false m e).den = 1 := by
    cases negative with
    | false => exact h
    | true => rwa [exact_eq, if_pos rfl, Rat.den_neg_eq_den] at h
  have hnum : 0 ≤ (exact false m e).num := Rat.num_nonneg.mpr (exact_nonneg m e)
  rw [natAbs_exact_num, ← Int.cast_natCast, Int.natAbs_of_nonneg hnum]
  exact Rat.coe_int_num_of_den_eq_one hden

theorem ofInt_eq_signed (z : Int) :
    Text.ofInt z = signed (decide (z < 0)) (Numeral.ofNat z.natAbs).text := by
  unfold Text.ofInt signed Numeral.text
  by_cases hz : z < 0 <;> simp [hz, Numeral.ofNat]

/-- **Round trip.** A finite double is written as a numeral that reads back. -/
theorem exists_numeral_plain {x : Binary64} (h : x.isFinite = true) :
    ∃ (n : Numeral) (negative : Bool), x.plain = signed negative n.text
      ∧ (n.decimal negative).toDouble = x.unsignZero := by
  obtain ⟨negative, m, e, hfits⟩ | _ | _ := x
  · by_cases hm : m = 0
    · subst hm
      refine ⟨Numeral.ofNat 0, false, ?_, ?_⟩
      · simp [plain, exact_zero, ofInt_eq_signed]
      · rw [unsignZero, if_pos (by simp [isZero])]
        rfl
    · have hunsign : (finite negative m e hfits).unsignZero = finite negative m e hfits :=
        if_neg (by simpa [isZero] using hm)
      rw [hunsign]
      unfold plain
      dsimp only
      split
      · next hden =>
        refine ⟨Numeral.ofNat (exact negative m e).num.natAbs, negative, ?_, ?_⟩
        · rw [ofInt_eq_signed, exact_num_neg hm]
        · refine Decimal.toDouble_exact hfits ?_
          rw [Numeral.ofNat_decimal_magnitude, natAbs_num_eq_exact hden]
      · have hback := Decimal.shortest_toDouble hfits
        have hsign := Decimal.shortest_negative (finite false m e hfits) (exact false m e)
        generalize Decimal.shortest (finite false m e hfits) (exact false m e) = d at hback hsign ⊢
        obtain ⟨dnegative, c, p⟩ := d
        subst hsign
        obtain ⟨n, htext, hvalue⟩ := Numeral.exists_text_eq_positional c p
        refine ⟨n, negative, by rw [htext], ?_⟩
        rw [← Decimal.toDouble_negative hback negative]
        exact Decimal.toDouble_congr rfl (hvalue negative)
  · cases h
  · cases h

end Binary64

end CssValues
