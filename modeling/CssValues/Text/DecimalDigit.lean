import CssValues.Text.Basic
import CssValues.Text.Table.DecimalZeros

/-!
# Decimal digits of all scripts
-/

namespace CssValues.Text

/-- The value of a decimal digit of any script. -/
def digitValue? (c : Char) : Option Nat :=
  (decimalZeros.find? (fun first => first ≤ c.toNat && c.toNat ≤ first + 9)).map (c.toNat - ·)

def isDigit (c : Char) : Bool := (digitValue? c).isSome

def ofDigits (t : Text) : Nat :=
  t.foldl (fun n c => 10 * n + (digitValue? c).getD 0) 0

end CssValues.Text
