import DiceScript.Eval
import Mathlib

/-!
What comes of the things that a run can do, and of runs that are made of others.
-/

namespace DiceScript

variable {σ α β : Type} (p : Nat) (eval : Evaluator σ) (m : Machine σ)

namespace Run

@[simp]
theorem outcome_pure (a : α) : (pure a : Run σ α).outcome p eval m = some (a, m) := rfl

@[simp]
theorem outcome_bind (run : Run σ α) (f : α → Run σ β) :
    (run >>= f).outcome p eval m =
      (run.outcome p eval m).bind fun r => (f r.1).outcome p eval r.2 := by
  show (run.bind f).outcome p eval m = _
  induction run generalizing m with
  | done a => rfl
  | breakdown => rfl
  | look next ih => exact ih m m
  | put m' next ih => exact ih m'
  | ask e next ih => simp only [Run.bind, outcome, ih, Option.bind_assoc]
  | askReduced v next ih => simp only [Run.bind, outcome, ih, Option.bind_assoc]

@[simp]
theorem outcome_eval (e : Expr) : (Run.eval e).outcome p eval m = eval e m := by
  simp only [Run.eval, outcome]
  cases eval e m <;> rfl

@[simp]
theorem outcome_reduce (v : Value) :
    (Run.reduce v).outcome p eval m = eval.reduceWithin p v m := by
  simp only [Run.reduce, outcome]
  cases eval.reduceWithin p v m <;> rfl

@[simp]
theorem outcome_evalText (s : String) : (Eval.evalText s).outcome p eval m = eval.text s m := by
  unfold Eval.evalText Evaluator.text
  cases Script.parse s with
  | none => rfl
  | some script => exact outcome_eval p eval m script.root

@[simp]
theorem outcome_context : Run.context.outcome p eval m = some (m.context, m) := rfl

@[simp]
theorem outcome_modifyContext (change : Context → Context) :
    (Run.modifyContext change).outcome p eval m =
      some ((), { m with context := change m.context }) := rfl

@[simp]
theorem outcome_lookup (name : String) :
    (Run.lookup name).outcome p eval m = some (m.context.lookup name, m) := rfl

@[simp]
theorem outcome_assign (name : String) (v : Value) :
    (Run.assign name v).outcome p eval m =
      some ((), { m with context := m.context.assign name v }) := rfl

@[simp]
theorem outcome_writeLine (line : String) :
    (Run.writeLine line).outcome p eval m =
      some ((), { m with log := m.log.writeLine line }) := rfl

@[simp]
theorem outcome_withTray (act : StateM (Tray σ) α) :
    (Run.withTray act).outcome p eval m =
      some ((act m.tray).1, { m with tray := (act m.tray).2 }) := rfl

@[simp]
theorem outcome_andThen (run : Run σ Value) (next : Value → Run σ Value) :
    (Run.andThen run next).outcome p eval m =
      (run.outcome p eval m).bind fun r =>
        if r.1.isError then some r else (next r.1).outcome p eval r.2 := by
  simp only [Run.andThen, outcome_bind]
  congr 1
  funext r
  split <;> rfl

end Run

theorem evalWithin_succ (engine : Engine σ) (n : Nat) (e : Expr) :
    Eval.evalWithin engine (n + 1) e m =
      (Eval.step engine e).outcome engine.patience (Eval.evalWithin engine n) m := rfl

end DiceScript
