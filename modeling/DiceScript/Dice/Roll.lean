import DiceScript.Dice
import DiceScript.Roller
import DiceScript.Sorting

/-!
Rolling dice: a face for every die, some of them rolled again, and the faces that are kept.
-/

namespace DiceScript

/-- What a roll of dice came to: the final face of every die in order, the faces that are kept, and
their sum. -/
structure DiceRoll where
  faces : List Integer
  kept : List Integer
  total : Integer
  deriving DecidableEq, Repr

namespace DiceSpec

variable {σ : Type} (roller : Roller σ) (spec : DiceSpec)

/-- A number of the spec as an integer. -/
def amount (n : UInt32) : Integer := Int64.ofNat n.toNat

/-- Rolls one die. A face up to the threshold is rolled again, once. -/
def rollFace : StateM (Tray σ) Integer := do
  let face ← roller.ask 1 (amount spec.sides)
  match spec.reroll with
  | some threshold =>
    if face ≤ amount threshold then roller.ask 1 (amount spec.sides) else return face
  | none => return face

/-- Rolls some number of dice. -/
def rollFaces : Nat → StateM (Tray σ) (List Integer)
  | 0 => return []
  | n + 1 => do
    let face ← rollFace roller spec
    return face :: (← rollFaces n)

/-- The highest faces, highest first, if only those are kept. -/
def highest (limit : Option UInt32) (faces : List Integer) : List Integer :=
  match limit with
  | some n => (Sorting.stable (fun a b => decide (b < a)) faces).take n.toNat
  | none => faces

/-- The lowest faces, lowest first, if only those are kept. -/
def lowest (limit : Option UInt32) (faces : List Integer) : List Integer :=
  match limit with
  | some n => (Sorting.stable (fun a b => decide (a < b)) faces).take n.toNat
  | none => faces

/-- The faces that are kept: of the highest, the lowest. -/
def kept (faces : List Integer) : List Integer :=
  lowest spec.keepLowest (highest spec.keepHighest faces)

/-- Rolls the dice. There is no roll of dice without sides. -/
def roll? : StateM (Tray σ) (Option DiceRoll) := do
  if spec.sides = 0 then return none
  else
    let faces ← rollFaces roller spec spec.count.toNat
    let kept := spec.kept faces
    return some ⟨faces, kept, kept.foldl (· + ·) 0⟩

end DiceSpec

end DiceScript
