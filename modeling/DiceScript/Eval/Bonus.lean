import DiceScript.Eval.Machine

/-!
Bonuses: making one, and asking a stat for one.
-/

namespace DiceScript.Eval

open Run

variable {σ : Type}

/-- The bonus type that a value names or numbers. -/
def bonusTypeOf : Value → Except Fault BonusType
  | .str name =>
    match BonusType.ofName? name with
    | some t => .ok t
    | none => .error (.unknownBonusType name)
  | .int ordinal =>
    match BonusType.ofOrdinal? ordinal with
    | some t => .ok t
    | none => .error (.unknownBonusType ordinal.text)
  | other => .error (.notABonusType other.kind)

/-- Evaluates a bonus type and goes on with it. -/
def withBonusType (type : Expr) (next : BonusType → Run σ Value) : Run σ Value :=
  andThen (eval type) fun v =>
    match bonusTypeOf v with
    | .ok t => next t
    | .error f => return .fail f

/-- Evaluates the value of a bonus and goes on with it. -/
def withBonusValue (value : Expr) (next : Integer → Run σ Value) : Run σ Value :=
  andThen (eval value) fun v =>
    match v.int? with
    | some n => next n
    | none => return .fail (.bonusValue v.kind)

/-- A bonus. Without a type it is typeless, and without a value its value is zero. -/
def bonus (name : Expr) (type value : Option Expr) : Run σ Value :=
  andThen (eval name) fun nameValue =>
    let withType (next : BonusType → Run σ Value) : Run σ Value :=
      match type with
      | some type => withBonusType type next
      | none => next .standard
    withType fun t =>
      match value with
      | some value => withBonusValue value fun n => return .bonus ⟨nameValue.text, t, n⟩
      | none => return .bonus ⟨nameValue.text, t, 0⟩

/-- The stat that a bonus is asked of. A variable is looked at as it is, and not evaluated. -/
def askedStat (e : Expr) : Run σ (Except Value Stat) := do
  match e with
  | .var name =>
    match ← lookup name with
    | some (.stat s) => return .ok s
    | some _ => return .error (.fail (.notAStat (Name.normalize name)))
    | none => return .error (.fail (.notFound (Name.normalize name)))
  | e =>
    match ← eval e with
    | .stat s => return .ok s
    | .error message => return .error (.error message)
    | other => return .error (.fail (.noBonuses other.kind))

/-- The highest bonus of a type on a stat. -/
def getBonus (left right : Expr) : Run σ Value := do
  match ← askedStat left with
  | .ok s => withBonusType right fun t => return .int (s.bonusOf t)
  | .error error => return error

end DiceScript.Eval
