import DiceScript.Context
import DiceScript.Expr
import DiceScript.Log
import DiceScript.Roller

/-!
The machine that scripts run on, and the runs that change it. A machine has the variables, the log
and the dice. A run is what a rule of evaluation does, one thing after another: it looks at the
machine and changes it, and it asks for the values of other expressions.
-/

namespace DiceScript

/-- How scripts are run: how deep evaluation may nest, and whether the left side of a bar is
logged. -/
structure Config where
  maxDepth : Nat
  echoPipes : Bool
  deriving DecidableEq, Repr

/-- The configuration of a host that asks for nothing else. -/
def Config.standard : Config := ⟨10000, true⟩

/-- What a run goes by. The patience is the number of stored expressions in a row that a member is
looked for in. -/
structure Engine (σ : Type) where
  config : Config
  roller : Roller σ
  patience : Nat

/-- What a run changes. -/
structure Machine (σ : Type) where
  context : Context
  log : Log
  tray : Tray σ

/-- A run that gives a result, unless it breaks down. -/
inductive Run (σ α : Type)
  | done (result : α)
  /-- Breaks down, as the reading of a text does. -/
  | breakdown
  /-- Looks at the machine. -/
  | look (next : Machine σ → Run σ α)
  /-- Changes the machine. -/
  | put (m : Machine σ) (next : Run σ α)
  /-- Asks for the value of an expression. -/
  | ask (e : Expr) (next : Value → Run σ α)
  /-- Asks for what a value comes to when it is evaluated as long as it is a stored expression. -/
  | askReduced (v : Value) (next : Value → Run σ α)

namespace Run

variable {σ : Type}

/-- Goes on with the result of a run. -/
protected def bind {α β : Type} : Run σ α → (α → Run σ β) → Run σ β
  | done a, f => f a
  | breakdown, _ => breakdown
  | look next, f => look fun m => (next m).bind f
  | put m next, f => put m (next.bind f)
  | ask e next, f => ask e fun v => (next v).bind f
  | askReduced v next, f => askReduced v fun w => (next w).bind f

instance : Monad (Run σ) where
  pure := done
  bind := Run.bind

/-! ## What a run can do -/

/-- The value of an expression, one level deeper. -/
def eval (e : Expr) : Run σ Value := ask e done

/-- What a value comes to when it is evaluated as long as it is a stored expression. -/
def reduce (v : Value) : Run σ Value := askReduced v done

/-- Changes the machine. -/
protected def modify (change : Machine σ → Machine σ) : Run σ Unit :=
  look fun m => put (change m) (done ())

/-- The variables as they are now. -/
def context : Run σ Context := look fun m => done m.context

/-- Changes the variables. -/
def modifyContext (change : Context → Context) : Run σ Unit :=
  Run.modify fun m => { m with context := change m.context }

/-- The value of a variable. -/
def lookup (name : String) : Run σ (Option Value) := do return (← context).lookup name

/-- Sets a variable of the innermost frame. -/
def assign (name : String) (v : Value) : Run σ Unit := modifyContext (·.assign name v)

/-- Writes a line to the log. -/
def writeLine (line : String) : Run σ Unit :=
  Run.modify fun m => { m with log := m.log.writeLine line }

/-- Does something with the dice. -/
def withTray {α : Type} (act : StateM (Tray σ) α) : Run σ α :=
  look fun m =>
    let (result, tray) := act m.tray
    put { m with tray } (done result)

/-! ## Errors -/

/-- Goes on with the value of a run, unless it is an error. -/
def andThen (run : Run σ Value) (next : Value → Run σ Value) : Run σ Value := do
  let v ← run
  if v.isError then return v else next v

/-- A result, or the error of a fault. -/
def ofExcept : Except Fault Value → Run σ Value
  | .ok v => return v
  | .error f => return .fail f

/-! ## Lists -/

/-- The values of expressions, in order. -/
def values : List Expr → Run σ (List Value)
  | [] => return []
  | e :: es => do
    let v ← eval e
    return v :: (← values es)

/-- The values of expressions, in order, up to the first error. -/
def valuesOrError : List Expr → Run σ (Except Value (List Value))
  | [] => return .ok []
  | e :: es => do
    let v ← eval e
    if v.isError then return .error v
    else
      match ← valuesOrError es with
      | .ok vs => return .ok (v :: vs)
      | .error error => return .error error

/-- Goes on with the values of expressions, unless one is an error. -/
def andThenAll (es : List Expr) (next : List Value → Run σ Value) : Run σ Value := do
  match ← valuesOrError es with
  | .ok vs => next vs
  | .error error => return error

end Run

end DiceScript
