/-!
Decimal numerals of natural numbers: writing one, and reading back a run of digits.
-/

namespace DiceScript.Decimal

/-- The numeral of a number, without leading zeros. -/
def text (n : Nat) : String := String.ofList (Nat.toDigits 10 n)

/-- Whether a character is one of the digits 0 to 9. -/
def isDigit (c : Char) : Bool := '0' ≤ c && c ≤ '9'

/-- The value of a digit. -/
def digitValue (c : Char) : Nat := c.toNat - '0'.toNat

/-- The number that a run of digits writes. -/
def value (digits : List Char) : Nat :=
  digits.foldl (fun n c => 10 * n + digitValue c) 0

/-- Reads a non-empty run of digits. -/
def read? (cs : List Char) : Option Nat :=
  if cs ≠ [] && cs.all isDigit then some (value cs) else none

end DiceScript.Decimal
