import DiceScript.Integer
import DiceScript.Text.Blank
import DiceScript.Text.Letter

/-!
Bonuses: named modifiers of a stat. The type of a bonus decides how bonuses of that type combine.
-/

namespace DiceScript

/-- The type of a bonus. `empty` stands for no type at all and never counts, `override` replaces the
value of a stat. -/
inductive BonusType
  | empty
  | typeless
  | alchemical
  | armor
  | bab
  | circumstance
  | competence
  | deflection
  | dodge
  | enhancement
  | inherent
  | insight
  | luck
  | morale
  | naturalArmor
  | profane
  | racial
  | resistance
  | sacred
  | shield
  | size
  | trait
  | penalty
  | override
  deriving DecidableEq, Repr

/-- How the bonuses of one type combine. -/
inductive StackingRule
  /-- They add up, but each name counts once, with its highest value. -/
  | distinctNames
  /-- They all add up. -/
  | always
  /-- Only the highest counts. -/
  | highestOnly
  deriving DecidableEq, Repr

namespace BonusType

/-- Every bonus type, in the order of their numbers. -/
def all : List BonusType := [
  empty, typeless, alchemical, armor, bab, circumstance, competence, deflection, dodge, enhancement,
  inherent, insight, luck, morale, naturalArmor, profane, racial, resistance, sacred, shield, size,
  trait, penalty, override]

/-- The type of a bonus that names none. -/
def standard : BonusType := typeless

def name : BonusType → String
  | empty => "empty"
  | typeless => "typeless"
  | alchemical => "alchemical"
  | armor => "armor"
  | bab => "bab"
  | circumstance => "circumstance"
  | competence => "competence"
  | deflection => "deflection"
  | dodge => "dodge"
  | enhancement => "enhancement"
  | inherent => "inherent"
  | insight => "insight"
  | luck => "luck"
  | morale => "morale"
  | naturalArmor => "naturalarmor"
  | profane => "profane"
  | racial => "racial"
  | resistance => "resistance"
  | sacred => "sacred"
  | shield => "shield"
  | size => "size"
  | trait => "trait"
  | penalty => "penalty"
  | override => "override"

/-- The type with a name, whatever the case of its letters and the blanks and underscores in it. -/
def ofName? (name : String) : Option BonusType :=
  let wanted := (name.toList.filter fun c => !Text.isBlank c && c != '_').flatMap Letter.lower
  all.find? fun t => t.name == String.ofList wanted

/-- The type with a number, counted from zero. -/
def ofOrdinal? (ordinal : Integer) : Option BonusType :=
  if ordinal < 0 then none else all[ordinal.toInt.toNat]?

def stackingRule : BonusType → StackingRule
  | typeless | circumstance | dodge => .distinctNames
  | penalty => .always
  | _ => .highestOnly

end BonusType

/-- A named modifier of a stat. -/
structure Bonus where
  name : String
  type : BonusType
  value : Integer
  deriving DecidableEq, Repr

namespace Bonus

/-- The name that stands for every name when bonuses are removed. -/
def wildcard : String := "*"

/-- Whether the bonus has the wildcard for a name. -/
def isWildcard (b : Bonus) : Bool := b.name == wildcard

/-- The bonus as text, such as `ring +2 (luck)`. -/
def text (b : Bonus) : String :=
  b.name ++ " " ++ b.value.signedText ++ " (" ++ b.type.name ++ ")"

end Bonus

end DiceScript
