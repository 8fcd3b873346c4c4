import DiceScript.Integer

/-!
Rollers: where random numbers come from. A roller is asked for a number between two bounds and may
keep a state from one request to the next. Everything that was asked for is kept in a tray.
-/

namespace DiceScript

/-- A source of numbers. Asked for a number between two bounds, both included, it answers with one
and with its next state. -/
structure Roller (σ : Type) where
  answer : Integer → Integer → σ → Integer × σ

namespace Roller

/-- A roller with the answers laid out in advance. An answer outside the bounds is moved to the
nearer one, and when no answers are left, the lower bound is the answer. -/
def queue : Roller (List Integer) where
  answer lower upper
    | [] => (lower, [])
    | n :: rest => (min (max n lower) upper, rest)

/-- The step from one state of the seeded roller to the next. -/
def advance (seed : UInt64) : UInt64 := seed + 0x9E3779B97F4A7C15

/-- The bits that a state of the seeded roller stands for. -/
def mix (seed : UInt64) : UInt64 :=
  let a := (seed ^^^ (seed >>> 30)) * 0xBF58476D1CE4E5B9
  let b := (a ^^^ (a >>> 27)) * 0x94D049BB133111EB
  b ^^^ (b >>> 31)

/-- A roller whose answers follow from a seed. With bounds that leave no choice it answers with the
lower one. -/
def seeded : Roller UInt64 where
  answer lower upper seed :=
    if upper ≤ lower then (lower, seed)
    else
      let next := advance seed
      let span := (upper.toInt - lower.toInt).toNat + 1
      (Int64.ofInt (lower.toInt + (mix next).toNat % span), next)

end Roller

/-- A request for a number, and its answer. -/
structure Request where
  lower : Integer
  upper : Integer
  result : Integer
  deriving DecidableEq, Repr

/-- The state of a roller, and the requests made so far, the latest first. -/
structure Tray (σ : Type) where
  dice : σ
  requests : List Request

/-- Asks a roller for a number and notes the request. -/
def Roller.ask {σ : Type} (roller : Roller σ) (lower upper : Integer) : StateM (Tray σ) Integer :=
  fun tray =>
    let (result, dice) := roller.answer lower upper tray.dice
    (result, ⟨dice, ⟨lower, upper, result⟩ :: tray.requests⟩)

end DiceScript
