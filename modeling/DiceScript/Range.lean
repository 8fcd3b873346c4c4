import DiceScript.Integer

/-!
Ranges of integers with both ends included. A range whose first end is the greater one runs down.
-/

namespace DiceScript

/-- The integers from `lower` to `upper`. -/
structure Range where
  lower : Integer
  upper : Integer
  deriving DecidableEq, Repr

namespace Range

/-- The number of integers in the range. -/
def count (r : Range) : Nat := (r.upper.toInt - r.lower.toInt).natAbs + 1

/-- The number of integers in the range, if it is itself an integer of scripts. -/
def length? (r : Range) : Option Integer := Integer.ofInt? r.count

/-- The integer at an index. A negative index counts from the end. -/
def get? (r : Range) (index : Integer) : Option Integer :=
  let position := if index.toInt < 0 then r.count + index.toInt else index.toInt
  if 0 ≤ position ∧ position < r.count then
    Integer.ofInt? <|
      if r.lower ≤ r.upper then r.lower.toInt + position else r.lower.toInt - position
  else none

/-- The integer after another on the way to the last one. -/
def next? (r : Range) (n : Integer) : Option Integer :=
  if n = r.upper then none else some (if r.lower ≤ r.upper then n + 1 else n - 1)

/-- At most some number of integers of the range, beginning with a given one. -/
def walk (r : Range) : Nat → Integer → List Integer
  | 0, _ => []
  | count + 1, n =>
    match r.next? n with
    | some next => n :: walk r count next
    | none => [n]

/-- At most the first `n` integers of the range, in order. -/
def take (r : Range) (n : Nat) : List Integer := r.walk n r.lower

/-- The integers of the range, in order. -/
def values (r : Range) : List Integer := r.take r.count

/-- The range as text. -/
def text (r : Range) : String := r.lower.text ++ ".." ++ r.upper.text

end Range

end DiceScript
