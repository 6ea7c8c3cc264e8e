/-!
# Decimal numerals

* `readInteger?` — reads a whole numeral: an optional sign, then at least one
  decimal digit, leading zeros allowed and nothing else.
-/

namespace LambdaDeploy.Text

/-- The number that a non-empty run of decimal digits stands for. -/
def readDigits? (text : List Char) : Option Nat :=
  if text ≠ [] ∧ text.all Char.isDigit then
    some (text.foldl (fun n c => 10 * n + (c.toNat - '0'.toNat)) 0)
  else none

/-- The integer that a decimal numeral with an optional sign stands for. -/
def readInteger? : List Char → Option Int
  | '+' :: digits => (readDigits? digits).map Int.ofNat
  | '-' :: digits => (readDigits? digits).map fun n => -(n : Int)
  | digits => (readDigits? digits).map Int.ofNat

end LambdaDeploy.Text
