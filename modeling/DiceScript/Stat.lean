import DiceScript.Bonus
import DiceScript.Sorting

/-!
Stats: a base value with typed bonuses. The value of a stat is its base and what its bonuses add up
to, unless an override replaces it.
-/

namespace DiceScript

/-! ## Stacking -/

namespace Stacking

/-- The bonuses of one type, highest first. -/
def group (bonuses : List Bonus) (t : BonusType) : List Bonus :=
  Sorting.stable (fun a b => decide (b.value < a.value)) (bonuses.filter fun b => b.type == t)

/-- What a group that is sorted highest first adds under a rule. -/
def counted (rule : StackingRule) (sorted : List Bonus) : List Bonus :=
  match rule with
  | .distinctNames => Sorting.firstOfEach Bonus.name sorted
  | .always => sorted
  | .highestOnly => sorted.take 1

/-- The amounts that a list of bonuses adds up, type by type in the order in which the types first
appear. -/
def amounts (bonuses : List Bonus) : List Integer :=
  (Sorting.firstOfEach id (bonuses.map Bonus.type)).flatMap fun t =>
    (counted t.stackingRule (group bonuses t)).map Bonus.value

/-- What bonuses add up to, stopping at the ends of the range after each amount. -/
def total (bonuses : List Bonus) : Integer :=
  (amounts bonuses).foldl Integer.addSaturating 0

/-- What bonuses add up to, if no sum on the way leaves the range. -/
def total? (bonuses : List Bonus) : Option Integer :=
  (amounts bonuses).foldlM Integer.add? 0

end Stacking

/-- A base value, the bonuses on it in the order they were added, and an override. -/
structure Stat where
  base : Integer
  bonuses : Option (List Bonus)
  overriding : Option Bonus
  deriving DecidableEq, Repr

namespace Stat

/-- A stat without bonuses. -/
def ofBase (base : Integer) : Stat := ⟨base, none, none⟩

/-! ## Reading -/

/-- The bonuses, without the override. -/
def bonusList (s : Stat) : List Bonus := s.bonuses.getD []

/-- What the bonuses add up to, whether or not an override hides it. -/
def bonusTotal (s : Stat) : Integer := Stacking.total s.bonusList

/-- What the bonuses add up to, if that fits. -/
def bonusTotal? (s : Stat) : Option Integer := Stacking.total? s.bonusList

/-- The value, stopping at the ends of the range. -/
def value (s : Stat) : Integer :=
  match s.overriding with
  | some b => b.value
  | none => Integer.addSaturating s.base s.bonusTotal

/-- The value, if it fits. -/
def value? (s : Stat) : Option Integer :=
  match s.overriding with
  | some b => some b.value
  | none => s.bonusTotal?.bind (Integer.add? s.base)

/-- Whether the stat has a bonus list or an override. -/
def hasBonuses (s : Stat) : Bool := s.bonuses.isSome || s.overriding.isSome

/-- The highest bonus of a type, or zero without one. -/
def bonusOf (s : Stat) (t : BonusType) : Integer :=
  if t = .override then (s.overriding.map Bonus.value).getD 0
  else
    match (s.bonusList.filter fun b => b.type == t).map Bonus.value with
    | [] => 0
    | v :: vs => vs.foldl max v

/-- Stats are compared by their values. -/
def order (s t : Stat) : Ordering := compare s.value t.value

/-! ## Changing -/

/-- A stat with a new base. -/
def setBase (s : Stat) (base : Integer) : Stat := { s with base }

/-- Whether a bonus can be put on a stat. A bonus of no type, of value zero or with the wildcard for
a name cannot. -/
def accepts (b : Bonus) : Bool := !(b.isWildcard || b.type == .empty || b.value == 0)

/-- Puts a bonus on a stat, if it is one that can be. An override takes the place of the one
before. -/
def add (s : Stat) (b : Bonus) : Stat :=
  if !accepts b then s
  else if b.type = .override then { s with overriding := some b }
  else { s with bonuses := some (s.bonusList ++ [b]) }

/-- A stat whose bonus list is dropped when it is empty. -/
def normalize (s : Stat) : Stat :=
  if s.bonuses = some [] then { s with bonuses := none } else s

/-- The override that is left after a removal by name. -/
def keptOverride (s : Stat) (b : Bonus) : Option Bonus :=
  s.overriding.filter fun current => current.name != b.name

/-- Takes a bonus off a stat. The wildcard takes off every bonus of its type. Any other name takes
off an override with that name, and every bonus equal in name, type and value. -/
def remove (s : Stat) (b : Bonus) : Stat :=
  if b.isWildcard then
    if b.type = .override then normalize { s with overriding := none }
    else normalize { s with bonuses := s.bonuses.map (·.filter fun a => a.type != b.type) }
  else
    normalize { s with
      overriding := s.keptOverride b
      bonuses := s.bonuses.map (·.filter fun a => a != b) }

/-- Whether a removal counts as one: by the wildcard, when the stat had bonuses at all; by name,
when something is gone. -/
def removes (s : Stat) (b : Bonus) : Bool :=
  if b.isWildcard then s.hasBonuses
  else (s.keptOverride b != s.overriding) || s.bonusList.any (· == b)

/-! ## Text -/

/-- The value as text. -/
def text (s : Stat) : String := s.value.text

/-- The lines below the heading: the base, struck through under an override, and each bonus. -/
def details (s : Stat) : List String :=
  (match s.overriding with
    | some b => ["~~**Base:**~~ " ++ s.base.text, "**Override:** " ++ b.value.text]
    | none => ["**Base:** " ++ s.base.text])
  ++ s.bonusList.map fun b => "- " ++ b.text

/-- A sheet of the stat: its value as a heading, and the details if it has bonuses. -/
def sheet (s : Stat) : String :=
  let heading := "## " ++ s.value.text
  if s.hasBonuses then String.join (((heading :: s.details).map (· ++ "\n"))) else heading

end Stat

end DiceScript
