import DiceScript.Eval.Step

/-!
Evaluation of whole scripts. The depth of an expression is the number of levels above it; beyond the
greatest depth there is only an error. One thing may keep a run from ending, stored expressions that
go on giving stored expressions, and a run that meets too many of them in a row gives nothing. Nor
does a run that meets a text whose reading breaks down.
-/

namespace DiceScript

/-- What comes of a run: its result and the machine as it is left, or nothing if the run never ends
or breaks down. -/
abbrev Outcome (σ α : Type) := Option (α × Machine σ)

/-- A way to evaluate expressions. -/
abbrev Evaluator (σ : Type) := Expr → Machine σ → Outcome σ Value

namespace Evaluator

variable {σ : Type} (eval : Evaluator σ)

/-- Reads a text and evaluates it. -/
def text (text : String) (m : Machine σ) : Outcome σ Value :=
  (Script.parse text).bind fun script => eval script.root m

/-- Evaluates a value as long as it is a stored expression, at most some number of times. -/
def reduceWithin : Nat → Value → Machine σ → Outcome σ Value
  | 0, .expression _, _ => none
  | n + 1, .expression s, m => (eval.text s m).bind fun (v, m) => reduceWithin n v m
  | _, v, m => some (v, m)

end Evaluator

/-- What comes of a run, with a way to evaluate the expressions it asks for. -/
def Run.outcome {σ α : Type} (patience : Nat) (eval : Evaluator σ) :
    Run σ α → Machine σ → Outcome σ α
  | done a, m => some (a, m)
  | breakdown, _ => none
  | look next, m => (next m).outcome patience eval m
  | put m next, _ => next.outcome patience eval m
  | ask e next, m => (eval e m).bind fun (v, m) => (next v).outcome patience eval m
  | askReduced v next, m =>
    (eval.reduceWithin patience v m).bind fun (v, m) => (next v).outcome patience eval m

namespace Eval

variable {σ : Type} (engine : Engine σ)

/-- Evaluates an expression with some number of levels left. -/
def evalWithin : Nat → Evaluator σ
  | 0, _, m => some (.fail (.depthLimit engine.config.maxDepth), m)
  | n + 1, e, m => (step engine e).outcome engine.patience (evalWithin n) m

/-- Evaluates an expression from depth zero. -/
def eval (e : Expr) (m : Machine σ) : Outcome σ Value :=
  evalWithin engine (engine.config.maxDepth + 1) e m

/-- Reads a text and evaluates it. -/
def run (text : String) : Machine σ → Outcome σ Value := Evaluator.text (eval engine) text

end Eval

end DiceScript
