import DiceScript.Text.Decimal

/-!
Dice literals such as `4d6r1h3`: how many dice with how many sides, and what happens to the faces.
-/

namespace DiceScript

/-- What a dice literal asks for: the number of dice and of their sides, up to which face a die is
rolled again, and how many of the highest and of the lowest faces are kept. -/
structure DiceSpec where
  count : UInt32
  sides : UInt32
  reroll : Option UInt32
  keepHighest : Option UInt32
  keepLowest : Option UInt32
  deriving DecidableEq, Repr

namespace DiceSpec

/-- A number of a dice literal, if it fits in 32 bits. -/
def number? (digits : List Char) : Option UInt32 :=
  (Decimal.read? digits).bind fun n => if n < UInt32.size then some (UInt32.ofNat n) else none

/-- The number of dice in front of the letter `d`: one if nothing stands there, else a number with
or without a plus sign. -/
def count? : List Char → Option UInt32
  | [] => some 1
  | '+' :: digits => number? digits
  | digits => number? digits

/-- Sets what the letter of a modifier stands for. -/
def modify? (spec : DiceSpec) (marker : Char) (amount : UInt32) : Option DiceSpec :=
  match marker with
  | 'r' => some { spec with reroll := some amount }
  | 'h' => some { spec with keepHighest := some amount }
  | 'l' => some { spec with keepLowest := some amount }
  | _ => none

/-- Why a text is not read as dice. -/
inductive Failure
  /-- The text is no dice literal. -/
  | malformed
  /-- Reading breaks down: a character of several bytes stands where the letter of a modifier
  should, and the text cannot be cut behind the first of them. -/
  | breakdown
  deriving DecidableEq, Repr

/-- A part that a literal must have. -/
def required {α : Type} : Option α → Except Failure α
  | some a => .ok a
  | none => .error .malformed

/-- Reads modifiers, each a letter and a number. The first argument bounds their number. -/
def modifiers : Nat → DiceSpec → List Char → Except Failure DiceSpec
  | _, spec, [] => .ok spec
  | 0, _, _ :: _ => .error .malformed
  | n + 1, spec, marker :: rest =>
    if marker.utf8Size ≠ 1 then .error .breakdown
    else do
      let amount ← required (number? (rest.takeWhile Decimal.isDigit))
      let modified ← required (spec.modify? marker amount)
      modifiers n modified (rest.dropWhile Decimal.isDigit)

/-- Reads a dice literal. -/
def read (text : String) : Except Failure DiceSpec :=
  let cs := text.toList
  match cs.dropWhile (· != 'd') with
  | [] => .error .malformed
  | _ :: rest => do
    let count ← required (count? (cs.takeWhile (· != 'd')))
    let sides ← required (number? (rest.takeWhile Decimal.isDigit))
    modifiers rest.length ⟨count, sides, none, none, none⟩ (rest.dropWhile Decimal.isDigit)

/-- Whether only some of the faces are kept. -/
def hasKeep (spec : DiceSpec) : Bool := spec.keepHighest.isSome || spec.keepLowest.isSome

/-- A modifier as text, if it is set. -/
def modifierText (marker : String) : Option UInt32 → String
  | some amount => marker ++ Decimal.text amount.toNat
  | none => ""

/-- The literal as text. -/
def text (spec : DiceSpec) : String :=
  Decimal.text spec.count.toNat ++ "d" ++ Decimal.text spec.sides.toNat
    ++ modifierText "r" spec.reroll
    ++ modifierText "h" spec.keepHighest
    ++ modifierText "l" spec.keepLowest

end DiceSpec

end DiceScript
