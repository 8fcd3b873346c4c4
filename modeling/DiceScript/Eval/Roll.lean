import DiceScript.Dice.Roll
import DiceScript.Eval.Machine
import DiceScript.Value.Operators

/-!
Dice: rolling them once, and rolling them again and again.
-/

namespace DiceScript.Eval

open Run

variable {σ : Type} (roller : Roller σ)

/-- The total of a roll of dice. -/
def roll (spec : DiceSpec) : Run σ Value := do
  match ← withTray (spec.roll? roller) with
  | some r => return .int r.total
  | none => return .fail (.noSides spec.text)

/-- The sum of some number of rolls. -/
def rollTimes (spec : DiceSpec) : Nat → Integer → Run σ Value
  | 0, total => return .int total
  | n + 1, total => do
    match ← roll roller spec with
    | .int rolled =>
      match Integer.add? total rolled with
      | some total => rollTimes spec n total
      | none => return .fail (.repeatOverflow spec.text)
    | other => return other

/-- Rolls dice as many times as a value says, and adds up. -/
def rollRepeated (spec : DiceSpec) (count : Value) : Run σ Value :=
  match count.int? with
  | some times =>
    if 0 ≤ times then rollTimes roller spec times.toInt.toNat 0
    else return .fail (.negativeRepeat spec.text times)
  | none => return .fail (.notRepeatable spec.text count.kind)

/-- A product or quotient with dice on the left. Dice of which only some are kept are rolled again
and again, others are rolled once and scaled. -/
def multiplied (op : BinaryOp) (dice count : Expr) : Run σ Value :=
  let scaled : Run σ Value := do
    let total ← eval dice
    let factor ← eval count
    return Value.binary op total factor
  match dice with
  | .dice spec =>
    if spec.hasKeep then andThen (eval count) (rollRepeated roller spec) else scaled
  | _ => scaled

end DiceScript.Eval
