import DiceScript.Text.Decimal

/-!
The integers of scripts: words of 64 bits with a sign. Arithmetic on them either gives the exact
result or reports that the result does not fit; totals of bonuses also have a form that stops at the
ends of the range.
-/

namespace DiceScript

/-- An integer of a script. -/
abbrev Integer := Int64

namespace Integer

/-- The least integer of a script, as a number without bounds. -/
def least : Int := -9223372036854775808

/-- The greatest integer of a script, as a number without bounds. -/
def greatest : Int := 9223372036854775807

/-- The word for a number, if the number fits. -/
def ofInt? (n : Int) : Option Integer :=
  if least ≤ n ∧ n ≤ greatest then some (Int64.ofInt n) else none

/-- The word nearest to a number. -/
def nearest (n : Int) : Integer := Int64.ofInt (max least (min n greatest))

/-- The word for a number of things in memory. No memory holds more than the greatest integer of
them, where the word would stop. -/
def ofSize (n : Nat) : Integer := Int64.ofNat (min n greatest.toNat)

/-! ## Arithmetic that must fit -/

def add? (a b : Integer) : Option Integer := ofInt? (a.toInt + b.toInt)

def sub? (a b : Integer) : Option Integer := ofInt? (a.toInt - b.toInt)

def mul? (a b : Integer) : Option Integer := ofInt? (a.toInt * b.toInt)

def neg? (a : Integer) : Option Integer := ofInt? (-a.toInt)

def abs? (a : Integer) : Option Integer := ofInt? a.toInt.natAbs

/-- The quotient rounded toward zero. The divisor is not zero. -/
def div? (a b : Integer) : Option Integer := ofInt? (a.toInt.tdiv b.toInt)

/-- The remainder of the quotient rounded toward zero, refused where that quotient does not fit. The
divisor is not zero. -/
def rem? (a b : Integer) : Option Integer :=
  (div? a b).bind fun _ => ofInt? (a.toInt.tmod b.toInt)

/-! ## Arithmetic that cannot overflow -/

/-- The sum, or the end of the range it runs past. -/
def addSaturating (a b : Integer) : Integer := nearest (a.toInt + b.toInt)

/-- Division by a small positive number, rounded toward zero. -/
def quotient (a : Integer) (n : Nat) : Integer := Int64.ofInt (a.toInt.tdiv n)

/-! ## Numerals -/

/-- The decimal numeral. -/
def text (a : Integer) : String :=
  match a.toInt with
  | .ofNat n => Decimal.text n
  | .negSucc n => "-" ++ Decimal.text (n + 1)

/-- The decimal numeral, with a sign also where it is positive or zero. -/
def signedText (a : Integer) : String :=
  match a.toInt with
  | .ofNat n => "+" ++ Decimal.text n
  | .negSucc n => "-" ++ Decimal.text (n + 1)

/-- Reads a run of digits with or without a sign, if the number fits. -/
def read? : List Char → Option Integer
  | '+' :: digits => (Decimal.read? digits).bind fun n => ofInt? n
  | '-' :: digits => (Decimal.read? digits).bind fun n => ofInt? (-n)
  | digits => (Decimal.read? digits).bind fun n => ofInt? n

end Integer

end DiceScript
