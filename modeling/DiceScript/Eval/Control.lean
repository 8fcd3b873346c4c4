import DiceScript.Eval.Machine

/-!
Control: branches and loops.
-/

namespace DiceScript.Eval

open Run

variable {σ : Type}

/-- The body of the first branch whose condition holds. -/
def choose : Branches → Run σ Value
  | .done => return .int 0
  | .otherwise body => eval body
  | .test condition body rest =>
    andThen (eval condition) fun v => if v.isTruthy then eval body else choose rest

/-- The values that a loop goes through. A number counts up to itself. -/
def loopItems : Value → Except Fault (List Value)
  | .range r => .ok (r.values.map .int)
  | .array elements _ => .ok elements
  | .int n => .ok (if 1 ≤ n then (Range.mk 1 n).values.map .int else [])
  | other => .error (.notIterable other.kind)

/-- Evaluates a body for every item, and gives the last value. -/
def loopOver (name : String) (body : Expr) : List Value → Value → Run σ Value
  | [], result => return result
  | item :: rest, _ => do
    assign name item
    let result ← eval body
    loopOver name body rest result

/-- A loop. -/
def loop (name : String) (iterable body : Expr) : Run σ Value :=
  andThen (eval iterable) fun v =>
    match loopItems v with
    | .ok items => loopOver name body items (.int 0)
    | .error f => return .fail f

end DiceScript.Eval
