import DiceScript.Proofs.Eval.Scope

/-!
What evaluation adds to the log and to the requests for numbers. What comes of an expression depends
on the variables and on the dice, and not on what was logged and asked for before; its own lines are
put behind the log, and its own requests to those made.
-/

namespace DiceScript

variable {σ α β : Type}

/-- What comes of a run, apart from what it was started with: its result, the variables and dice as
it leaves them, the lines it wrote, and the requests it made, the latest first. -/
structure Yield (σ α : Type) where
  result : α
  context : Context
  dice : σ
  lines : Array String
  requests : List Request

/-- A machine with a log that has these lines. -/
def Machine.holding (context : Context) (dice : σ) (lines : Array String)
    (requests : List Request) : Machine σ := ⟨context, .kept ⟨lines, []⟩, ⟨dice, requests⟩⟩

namespace Yield

/-- What comes of a run that was started with these lines and requests. -/
def onto (y : Yield σ α) (lines : Array String) (requests : List Request) : α × Machine σ :=
  (y.result, .holding y.context y.dice (lines ++ y.lines) (y.requests ++ requests))

/-- The yield of a run that goes on where another ended. -/
def behind (first : Yield σ α) (y : Yield σ β) : Yield σ β :=
  { y with lines := first.lines ++ y.lines, requests := y.requests ++ first.requests }

theorem onto_behind (first : Yield σ α) (y : Yield σ β) (lines : Array String)
    (requests : List Request) :
    (first.behind y).onto lines requests =
      y.onto (lines ++ first.lines) (first.requests ++ requests) := by
  simp [onto, behind, Array.append_assoc, List.append_assoc]

end Yield

/-- What comes of a computation, whatever was logged and asked for before. -/
def Yields (f : Machine σ → Outcome σ α) (context : Context) (dice : σ)
    (yield : Option (Yield σ α)) : Prop :=
  ∀ lines requests, f (.holding context dice lines requests) =
    yield.map fun y => y.onto lines requests

/-- A computation only adds to the log and to the requests. -/
def Adds (f : Machine σ → Outcome σ α) : Prop :=
  ∀ context dice, ∃ yield, Yields f context dice yield

/-- What came of a computation comes of it with any lines and requests before it. -/
theorem Adds.exists_yield {f : Machine σ → Outcome σ α} (hf : Adds f) {context : Context} {dice : σ}
    {lines : Array String} {requests : List Request} {r : α × Machine σ}
    (h : f (.holding context dice lines requests) = some r) :
    ∃ y : Yield σ α, r = y.onto lines requests ∧
      ∀ lines requests, f (.holding context dice lines requests) =
        some (y.onto lines requests) := by
  obtain ⟨yield, hyield⟩ := hf context dice
  cases yield with
  | none =>
    rw [hyield] at h
    cases h
  | some y =>
    rw [hyield] at h
    cases h
    exact ⟨y, rfl, hyield⟩

theorem adds_congr {f g : Machine σ → Outcome σ α} (h : ∀ m, f m = g m) (hg : Adds g) :
    Adds f := by
  have hfg : f = g := funext h
  rwa [hfg]

/-- A result that adds nothing and may change the variables. -/
theorem adds_of_change {f : Machine σ → Outcome σ α} (result : Context → α)
    (change : Context → Context)
    (h : ∀ m, f m = some (result m.context, { m with context := change m.context })) : Adds f := by
  intro context dice
  refine ⟨some ⟨result context, change context, dice, #[], []⟩, fun lines requests => ?_⟩
  rw [h]
  simp [Yield.onto, Machine.holding]

theorem adds_bind {f : Machine σ → Outcome σ α} {g : α → Machine σ → Outcome σ β} (hf : Adds f)
    (hg : ∀ a, Adds (g a)) : Adds fun m => (f m).bind fun r => g r.1 r.2 := by
  intro context dice
  obtain ⟨first, hfirst⟩ := hf context dice
  cases first with
  | none =>
    refine ⟨none, fun lines requests => ?_⟩
    simp [hfirst lines requests]
  | some first =>
    obtain ⟨yield, hyield⟩ := hg first.result first.context first.dice
    refine ⟨yield.map first.behind, fun lines requests => ?_⟩
    simp only [hfirst lines requests, Option.map_some, Option.bind_some]
    refine (hyield (lines ++ first.lines) (first.requests ++ requests)).trans ?_
    rw [Option.map_map]
    simp only [Function.comp_def, Yield.onto_behind]

section

variable {p : Nat} {eval : Evaluator σ}

theorem adds_text (heval : ∀ e, Adds (eval e)) (s : String) : Adds (eval.text s) := by
  unfold Evaluator.text
  cases Script.parse s with
  | none => exact fun context dice => ⟨none, fun _ _ => rfl⟩
  | some script => exact heval script.root

theorem adds_reduceWithin (heval : ∀ e, Adds (eval e)) (n : Nat) (v : Value) :
    Adds (eval.reduceWithin n v) := by
  induction n generalizing v with
  | zero =>
    cases v with
    | expression s => exact fun context dice => ⟨none, fun _ _ => rfl⟩
    | _ => exact adds_of_change (fun _ => _) id fun _ => rfl
  | succ n ih =>
    cases v with
    | expression s => exact adds_bind (adds_text heval s) ih
    | _ => exact adds_of_change (fun _ => _) id fun _ => rfl

theorem adds_writeLine (line : String) :
    Adds ((Run.writeLine line : Run σ Unit).outcome p eval) := by
  intro context dice
  refine ⟨some ⟨(), context, dice, #[line], []⟩, fun lines requests => ?_⟩
  simp [Yield.onto, Machine.holding, Log.writeLine, Journal.writeLine, Journal.finish]

theorem adds_withTray {act : StateM (Tray σ) α} (h : Tray.Asks act) :
    Adds ((Run.withTray act).outcome p eval) := by
  intro context dice
  refine ⟨some ⟨(act ⟨dice, []⟩).1, context, (act ⟨dice, []⟩).2.dice, #[],
    (act ⟨dice, []⟩).2.requests⟩, fun lines requests => ?_⟩
  rw [Run.outcome_withTray, Machine.holding, h.apart dice requests]
  simp [Yield.onto, Machine.holding]

theorem adds_elevate (name : String) (v : Value) :
    Adds ((Eval.elevate name v : Run σ Value).outcome p eval) := by
  intro context dice
  cases helevate : context.elevate name v with
  | ok c =>
    refine ⟨some ⟨v, c, dice, #[], []⟩, fun lines requests => ?_⟩
    simp [outcome_elevate, Yield.onto, Machine.holding, helevate]
  | error f =>
    refine ⟨some ⟨.fail f, context, dice, #[], []⟩, fun lines requests => ?_⟩
    simp [outcome_elevate, Yield.onto, Machine.holding, helevate]

theorem adds_invoke (heval : ∀ e, Adds (eval e)) (f : Function) (args : List Value) :
    Adds ((Eval.invoke f args : Run σ (Value × Frame)).outcome p eval) := by
  -- a frame is opened, the body evaluated, and the frame closed
  have hopen : Adds fun m : Machine σ =>
      some ((), { m with context := Eval.bindParams f.params args m.context.pushScope }) :=
    adds_of_change (fun _ => ()) (fun c => Eval.bindParams f.params args c.pushScope) fun _ => rfl
  have hclose : ∀ v : Value, Adds fun m : Machine σ =>
      some ((v, m.context.popScope.1), { m with context := m.context.popScope.2 }) :=
    fun v => adds_of_change (fun c => (v, c.popScope.1)) (fun c => c.popScope.2) fun _ => rfl
  refine adds_congr (outcome_invoke f args) ?_
  exact adds_bind hopen fun _ => adds_bind (adds_text heval f.body) hclose

/-- Whatever a rule is put together from only adds to the log and to the requests. -/
theorem adds_of_composed (heval : ∀ e, Adds (eval e)) {mayElevate : String → Prop}
    {mayCopy : Prop} {run : Run σ α} (h : run.Composed mayElevate mayCopy) :
    Adds (run.outcome p eval) := by
  induction h with
  | pure a => exact adds_of_change (fun _ => a) id fun _ => rfl
  | breakdown => exact fun context dice => ⟨none, fun _ _ => rfl⟩
  | bind _ _ ihrun ihnext =>
    exact adds_congr (fun m => Run.outcome_bind p eval m _ _) (adds_bind ihrun ihnext)
  | eval e => exact adds_congr (fun m => Run.outcome_eval p eval m e) (heval e)
  | reduce v =>
    exact adds_congr (fun m => Run.outcome_reduce p eval m v) (adds_reduceWithin heval p v)
  | context => exact adds_of_change id id fun _ => rfl
  | assign name v => exact adds_of_change (fun _ => ()) (·.assign name v) fun _ => rfl
  | elevate _ v => exact adds_elevate _ v
  | invoke f args => exact adds_invoke heval f args
  | copyBack _ frame passed =>
    exact adds_of_change (fun _ => ()) (Eval.copyBack frame passed) fun _ => rfl
  | writeLine line => exact adds_writeLine line
  | withTray h => exact adds_withTray h

end

namespace Eval

/-- Evaluation only adds to the log and to the requests. The induction is on the levels left. -/
theorem adds_evalWithin (engine : Engine σ) (n : Nat) (e : Expr) :
    Adds (evalWithin engine n e) := by
  induction n generalizing e with
  | zero => exact adds_of_change (fun _ => _) id fun _ => rfl
  | succ n ih => exact adds_of_composed ih (composed_step engine e)

end Eval

end DiceScript
