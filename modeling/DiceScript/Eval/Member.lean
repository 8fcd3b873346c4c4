import DiceScript.Eval.Variable
import DiceScript.Value.Member

/-!
Parts of values: stored expressions, indices, and members.
-/

namespace DiceScript.Eval

open Run

variable {σ : Type} (roller : Roller σ)

/-! ## Stored expressions -/

/-- The text of a stored expression, if an expression is a variable that holds one. -/
def heldText? (e : Expr) : Run σ (Option String) := do
  match e with
  | .var name =>
    match ← lookup name with
    | some (.expression text) => return some text
    | _ => return none
  | _ => return none

/-- A value as a stored expression. -/
def deferred : Value → Value
  | .str s => .expression s
  | .expression text => .expression text
  | .error message => .error message
  | other => .expression other.text

/-- A deferred expression. A variable that holds one gives it as it is. -/
def defer (operand : Expr) : Run σ Value := do
  match ← heldText? operand with
  | some text => return .expression text
  | none => return deferred (← eval operand)

/-! ## Indices and members -/

/-- Counts the parts of a container or picks one at random. -/
def indexByMark (container : Value) (mark : String) : Run σ Value :=
  match Value.partCount container mark with
  | .error f => return .fail f
  | .ok count =>
    if mark = Value.countMark then return .int count
    else if mark = Value.randomMark then
      if count = 0 then return .fail (.emptyPick container.kind)
      else do
        let position ← withTray (roller.ask 0 (count - 1))
        ofExcept (container.at? (.int position))
    else return .fail (.unknownMark mark)

/-- An index. Both operands are evaluated before either is looked at. -/
def index (container position : Expr) : Run σ Value := do
  let c ← eval container
  let i ← eval position
  if c.isError then return c
  else if i.isError then return i
  else
    match i with
    | .symbol mark => indexByMark roller c mark
    | i => ofExcept (c.at? i)

/-- Stores the changed target of a method back in the variable it came from. -/
def keepTarget (target : Expr) (r : MemberResult) : Run σ Value := do
  match target, r.updated with
  | .var name, some updated => assign name updated
  | _, _ => pure ()
  return r.result

/-- A member of a value. A stored expression has its text and its value for members, and otherwise
the members of what it evaluates to. -/
def memberOf (target : Expr) (v : Value) (name : String) (args : List Value) : Run σ Value :=
  match v, name with
  | .expression text, "text" =>
    ofExcept (Value.withArgs name args 0 (.ok (.str text)))
  | .expression text, "eval" =>
    if args.isEmpty then evalText text else return .fail (.argumentCount name 0 args.length)
  | v, name =>
    andThen (reduce v) fun v =>
      match v.member name args with
      | .ok r => keepTarget target r
      | .error f => return .fail f

/-- A property or method. The members of a variable that holds a stored expression are those of the
expression. -/
def member (target : Expr) (name : String) (args : List Expr) : Run σ Value := do
  let held ← heldText? target
  andThen (match held with
    | some text => return .expression text
    | none => eval target) fun v =>
      andThenAll args fun args => memberOf target v (Name.fold name) args

end DiceScript.Eval
