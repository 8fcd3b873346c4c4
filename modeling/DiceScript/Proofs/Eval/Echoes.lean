import DiceScript.Proofs.Eval.Ending
import DiceScript.Proofs.Eval.Scope
import DiceScript.Session

/-!
Logging never influences what comes of a script. Evaluation is looked at with bars that may log
anything at all of the values on their left sides. Whatever they log, and whatever log there is,
values, variables, dice and requests are the same, and of the lines only those that bars write
differ.
-/

namespace DiceScript

variable {σ α β : Type}

/-- What bars log of the values on their left sides. -/
abbrev Echo := Value → List String

/-- What bars log under a configuration: the text of the value, or nothing. -/
def Config.echo (config : Config) : Echo := fun v => if config.echoPipes then [v.text] else []

/-! ## Bars that log anything -/

namespace Run

/-- Writes some lines to the log. -/
def writeLines : List String → Run σ Unit
  | [] => pure ()
  | line :: lines => do
    writeLine line
    writeLines lines

end Run

namespace Eval

open Run

/-- The rule of an expression, with bars that log what they are told to. -/
def stepEchoing (engine : Engine σ) (echo : Echo) : Expr → Run σ Value
  | .sequence first rest => do
    logError (← stepEchoing engine echo first)
    Run.eval rest
  | .pipe first rest => do
    writeLines (echo (← stepEchoing engine echo first))
    Run.eval rest
  | e => step engine e

/-- Evaluates an expression with some number of levels left, with bars that log what they are told
to. -/
def evalEchoing (engine : Engine σ) (echo : Echo) : Nat → Evaluator σ
  | 0, _, m => some (.fail (.depthLimit engine.config.maxDepth), m)
  | n + 1, e, m => (stepEchoing engine echo e).outcome engine.patience (evalEchoing engine echo n) m

/-- Reads a text and evaluates it, with bars that log what they are told to. -/
def runEchoing (engine : Engine σ) (echo : Echo) (text : String) : Machine σ → Outcome σ Value :=
  (evalEchoing engine echo (engine.config.maxDepth + 1)).text text

end Eval

/-- The engine with bars that echo or do not. -/
def Engine.echoing (engine : Engine σ) (echoPipes : Bool) : Engine σ :=
  { engine with config := { engine.config with echoPipes } }

namespace Eval

variable (engine : Engine σ)

/-- Apart from bars, no rule looks at whether bars echo. -/
theorem stepEchoing_echoing (echo : Echo) (echoPipes : Bool) :
    ∀ e, stepEchoing (engine.echoing echoPipes) echo e = stepEchoing engine echo e
  | .sequence first _ => by simp only [stepEchoing, stepEchoing_echoing echo echoPipes first]
  | .pipe first _ => by simp only [stepEchoing, stepEchoing_echoing echo echoPipes first]
  | .empty | .number _ | .text _ | .symbol _ | .var _ | .dice _ | .stored _ | .error _
  | .unary .. | .binary .. | .ternary .. | .shift .. | .pair .. | .multiplied .. | .index ..
  | .property .. | .method .. | .assign .. | .assignIndex .. | .choice _ | .loop .. | .call ..
  | .apply .. | .function .. | .array _ | .bonus .. | .defer _ | .event _ => rfl

/-- The bars of an engine log what its configuration says. -/
theorem stepEchoing_config : ∀ e, stepEchoing engine engine.config.echo e = step engine e
  | .sequence first _ => by simp only [stepEchoing, step, stepEchoing_config first]
  | .pipe first _ => by
    simp only [stepEchoing, step, stepEchoing_config first, Config.echo]
    congr 1
    funext v
    split <;> rfl
  | .empty | .number _ | .text _ | .symbol _ | .var _ | .dice _ | .stored _ | .error _
  | .unary .. | .binary .. | .ternary .. | .shift .. | .pair .. | .multiplied .. | .index ..
  | .property .. | .method .. | .assign .. | .assignIndex .. | .choice _ | .loop .. | .call ..
  | .apply .. | .function .. | .array _ | .bonus .. | .defer _ | .event _ => rfl

theorem evalWithin_eq_evalEchoing (n : Nat) :
    evalWithin engine n = evalEchoing engine engine.config.echo n := by
  induction n with
  | zero => rfl
  | succ n ih =>
    funext e m
    simp only [evalWithin, evalEchoing, stepEchoing_config, ih]

theorem evalEchoing_echoing (echo : Echo) (echoPipes : Bool) (n : Nat) :
    evalEchoing (engine.echoing echoPipes) echo n = evalEchoing engine echo n := by
  induction n with
  | zero => rfl
  | succ n ih =>
    funext e m
    simp only [evalEchoing, stepEchoing_echoing, ih]
    rfl

end Eval

/-! ## Transcripts -/

/-- What evaluation writes to the log: a line, or the echo of a value by a bar. -/
inductive Entry
  | line (text : String)
  | echo (v : Value)

namespace Entry

/-- The lines of an entry, with bars that log what they are told to. -/
def lines (echo : Echo) : Entry → List String
  | .line text => [text]
  | .echo v => echo v

/-- The entry as a line of the log, with bars that log the texts of values. -/
def text : Entry → String
  | .line text => text
  | .echo v => v.text

def isEcho : Entry → Bool
  | .line _ => false
  | .echo _ => true

end Entry

/-- Writes entries to a log, with bars that log what they are told to. -/
def Log.record (log : Log) (echo : Echo) (entries : List Entry) : Log :=
  (entries.flatMap (Entry.lines echo)).foldl Log.writeLine log

namespace Log

theorem record_append (log : Log) (echo : Echo) (xs ys : List Entry) :
    log.record echo (xs ++ ys) = (log.record echo xs).record echo ys := by
  simp only [record, List.flatMap_append, List.foldl_append]

theorem record_silent (echo : Echo) (entries : List Entry) :
    Log.silent.record echo entries = .silent := by
  unfold record
  induction entries.flatMap (Entry.lines echo) with
  | nil => rfl
  | cons line lines ih => exact ih

theorem lines_record_empty (echo : Echo) (entries : List Entry) :
    (Log.empty.record echo entries).lines = entries.flatMap (Entry.lines echo) := by
  have hfold : ∀ (lines : List String) (written : Array String),
      (lines.foldl Log.writeLine (.kept ⟨written, []⟩)).lines = written.toList ++ lines := by
    intro lines
    induction lines with
    | nil =>
      intro written
      simp [Log.lines, Journal.lines, Journal.finish]
    | cons line lines ih =>
      intro written
      have hline : (Log.kept ⟨written, []⟩).writeLine line = .kept ⟨written.push line, []⟩ := rfl
      rw [List.foldl_cons, hline, ih]
      simp
  exact (hfold _ #[]).trans (List.nil_append _)

end Log

/-- What comes of a computation whatever bars log and whatever log there is: its result, the
variables and the tray as it leaves them, and what it writes to the log. -/
structure Transcript (σ α : Type) where
  result : α
  context : Context
  tray : Tray σ
  entries : List Entry

/-- What comes of the computation with such bars and such a log. -/
def Transcript.onto (t : Transcript σ α) (echo : Echo) (log : Log) : α × Machine σ :=
  (t.result, ⟨t.context, log.record echo t.entries, t.tray⟩)

/-- The transcript of a computation that goes on where another ended. -/
def Transcript.behind (first : Transcript σ α) (t : Transcript σ β) : Transcript σ β :=
  { t with entries := first.entries ++ t.entries }

/-- A computation under all echoes at once has one transcript. -/
def Transcribes (f : Echo → Machine σ → Outcome σ α) : Prop :=
  ∀ context tray, ∃ transcript : Option (Transcript σ α), ∀ echo log,
    f echo ⟨context, log, tray⟩ = transcript.map fun t => t.onto echo log

/-! ## Everything that rules do -/

theorem transcribes_congr {f g : Echo → Machine σ → Outcome σ α} (h : ∀ echo m, f echo m = g echo m)
    (hg : Transcribes g) : Transcribes f := by
  have hfg : f = g := funext fun echo => funext (h echo)
  rwa [hfg]

/-- A result that writes nothing and may change the variables. -/
theorem transcribes_of_change {f : Echo → Machine σ → Outcome σ α} (result : Context → α)
    (change : Context → Context)
    (h : ∀ echo m, f echo m = some (result m.context, { m with context := change m.context })) :
    Transcribes f := fun context tray =>
  ⟨some ⟨result context, change context, tray, []⟩, fun echo log => h echo ⟨context, log, tray⟩⟩

/-- A result that writes entries and changes nothing else. -/
theorem transcribes_of_entries {f : Echo → Machine σ → Outcome σ Unit} (entries : List Entry)
    (h : ∀ echo m, f echo m = some ((), { m with log := m.log.record echo entries })) :
    Transcribes f := fun context tray =>
  ⟨some ⟨(), context, tray, entries⟩, fun echo log => h echo ⟨context, log, tray⟩⟩

theorem transcribes_bind {f : Echo → Machine σ → Outcome σ α}
    {g : α → Echo → Machine σ → Outcome σ β} (hf : Transcribes f) (hg : ∀ a, Transcribes (g a)) :
    Transcribes fun echo m => (f echo m).bind fun r => g r.1 echo r.2 := by
  intro context tray
  obtain ⟨first, hfirst⟩ := hf context tray
  cases first with
  | none =>
    refine ⟨none, fun echo log => ?_⟩
    simp [hfirst echo log]
  | some first =>
    obtain ⟨transcript, htranscript⟩ := hg first.result first.context first.tray
    refine ⟨transcript.map first.behind, fun echo log => ?_⟩
    simp only [hfirst echo log, Option.map_some, Option.bind_some]
    refine (htranscript echo (log.record echo first.entries)).trans ?_
    simp only [Option.map_map, Function.comp_def, Transcript.onto, Transcript.behind,
      Log.record_append]

section

variable {p : Nat} {evals : Echo → Evaluator σ}

/-- Which text is read does not depend on what bars log, nor does whether its reading breaks
down. -/
theorem transcribes_text (hevals : ∀ e, Transcribes fun echo => evals echo e) (s : String) :
    Transcribes fun echo => (evals echo).text s := by
  unfold Evaluator.text
  cases Script.parse s with
  | none => exact fun context tray => ⟨none, fun _ _ => rfl⟩
  | some script => exact hevals script.root

theorem transcribes_reduceWithin (hevals : ∀ e, Transcribes fun echo => evals echo e) (n : Nat)
    (v : Value) : Transcribes fun echo => (evals echo).reduceWithin n v := by
  induction n generalizing v with
  | zero =>
    cases v with
    | expression s => exact fun context tray => ⟨none, fun _ _ => rfl⟩
    | _ => exact transcribes_of_change (fun _ => _) id fun _ _ => rfl
  | succ n ih =>
    cases v with
    | expression s => exact transcribes_bind (transcribes_text hevals s) ih
    | _ => exact transcribes_of_change (fun _ => _) id fun _ _ => rfl

theorem transcribes_elevate (name : String) (v : Value) :
    Transcribes fun echo => (Eval.elevate name v : Run σ Value).outcome p (evals echo) := by
  intro context tray
  cases helevate : context.elevate name v with
  | ok c =>
    refine ⟨some ⟨v, c, tray, []⟩, fun echo log => ?_⟩
    simp only [outcome_elevate, helevate]
    rfl
  | error f =>
    refine ⟨some ⟨.fail f, context, tray, []⟩, fun echo log => ?_⟩
    simp only [outcome_elevate, helevate]
    rfl

theorem transcribes_invoke (hevals : ∀ e, Transcribes fun echo => evals echo e) (f : Function)
    (args : List Value) :
    Transcribes fun echo => (Eval.invoke f args).outcome p (evals echo) := by
  -- a frame is opened, the body evaluated, and the frame closed
  have hopen : Transcribes fun (_ : Echo) (m : Machine σ) =>
      some ((), { m with context := Eval.bindParams f.params args m.context.pushScope }) :=
    transcribes_of_change (fun _ => ()) (fun c => Eval.bindParams f.params args c.pushScope)
      fun _ _ => rfl
  have hclose : ∀ v : Value, Transcribes fun (_ : Echo) (m : Machine σ) =>
      some ((v, m.context.popScope.1), { m with context := m.context.popScope.2 }) :=
    fun v => transcribes_of_change (fun c => (v, c.popScope.1)) (fun c => c.popScope.2)
      fun _ _ => rfl
  refine transcribes_congr (fun echo => outcome_invoke f args) ?_
  exact transcribes_bind hopen fun _ =>
    transcribes_bind (transcribes_text hevals f.body) hclose

theorem outcome_writeLines (lines : List String) (eval : Evaluator σ) (m : Machine σ) :
    (Run.writeLines lines).outcome p eval m =
      some ((), { m with log := lines.foldl Log.writeLine m.log }) := by
  induction lines generalizing m with
  | nil => rfl
  | cons line lines ih =>
    simp only [Run.writeLines, Run.outcome_bind, Run.outcome_writeLine, Option.bind_some, ih,
      List.foldl_cons]

/-- Whatever a rule is put together from has one transcript. -/
theorem transcribes_of_composed (hevals : ∀ e, Transcribes fun echo => evals echo e)
    {mayElevate : String → Prop} {mayCopy : Prop} {run : Run σ α}
    (h : run.Composed mayElevate mayCopy) :
    Transcribes fun echo => run.outcome p (evals echo) := by
  induction h with
  | pure a => exact transcribes_of_change (fun _ => a) id fun _ _ => rfl
  | breakdown => exact fun context tray => ⟨none, fun _ _ => rfl⟩
  | bind _ _ ihrun ihnext =>
    exact transcribes_congr (fun _ m => Run.outcome_bind p _ m _ _) (transcribes_bind ihrun ihnext)
  | eval e => exact transcribes_congr (fun _ m => Run.outcome_eval p _ m e) (hevals e)
  | reduce v =>
    exact transcribes_congr (fun _ m => Run.outcome_reduce p _ m v)
      (transcribes_reduceWithin hevals p v)
  | context => exact transcribes_of_change id id fun _ _ => rfl
  | assign name v => exact transcribes_of_change (fun _ => ()) (·.assign name v) fun _ _ => rfl
  | elevate _ v => exact transcribes_elevate _ v
  | invoke f args => exact transcribes_invoke hevals f args
  | copyBack _ frame passed =>
    exact transcribes_of_change (fun _ => ()) (Eval.copyBack frame passed) fun _ _ => rfl
  | writeLine line => exact transcribes_of_entries [.line line] fun _ _ => rfl
  | @withTray _ act _ =>
    exact fun context tray => ⟨some ⟨(act tray).1, context, (act tray).2, []⟩, fun _ _ => rfl⟩

namespace Eval

/-- The rule of every expression has one transcript, in which the lines of a bar are an echo. The
induction is on the first parts of sequences, whose rules are parts of this one. -/
theorem transcribes_stepEchoing (hevals : ∀ e, Transcribes fun echo => evals echo e)
    (engine : Engine σ) (e : Expr) :
    Transcribes fun echo => (stepEchoing engine echo e).outcome p (evals echo) := by
  induction e using Expr.lead.induct with
  | case1 first rest ih =>
    have hrest : ∀ v, (do
        logError v
        Run.eval rest : Run σ Value).Composed (fun _ => False) False :=
      fun v => .bind (composed_logError v) fun _ => .eval rest
    exact transcribes_congr (fun _ m => Run.outcome_bind p _ m _ _)
      (transcribes_bind ih fun v => transcribes_of_composed hevals (hrest v))
  | case2 first rest ih =>
    have hecho : ∀ v, Transcribes fun echo =>
        (Run.writeLines (echo v) : Run σ Unit).outcome p (evals echo) := by
      refine fun v => transcribes_of_entries [.echo v] fun echo m => ?_
      rw [outcome_writeLines]
      simp [Log.record, Entry.lines]
    have hrest : ∀ v, Transcribes fun echo => (do
        Run.writeLines (echo v)
        Run.eval rest : Run σ Value).outcome p (evals echo) := fun v =>
      transcribes_congr (fun _ m => Run.outcome_bind p _ m _ _) (transcribes_bind (hecho v)
        fun _ => transcribes_congr (fun _ m => Run.outcome_eval p _ m rest) (hevals rest))
    exact transcribes_congr (fun _ m => Run.outcome_bind p _ m _ _) (transcribes_bind ih hrest)
  | case3 e hsequence hpipe =>
    have hstep : ∀ echo, stepEchoing engine echo e = step engine e := fun echo => by
      rw [stepEchoing] <;> assumption
    simp only [hstep]
    exact transcribes_of_composed hevals (composed_step engine e)

/-- The induction is on the levels that are left. -/
theorem transcribes_evalEchoing (engine : Engine σ) (n : Nat) (e : Expr) :
    Transcribes fun echo => evalEchoing engine echo n e := by
  induction n generalizing e with
  | zero => exact transcribes_of_change (fun _ => _) id fun _ _ => rfl
  | succ n ih => exact transcribes_stepEchoing ih engine e

end Eval

end

/-! ## Scripts of a session -/

namespace Entry

theorem flatMap_lines_of_echo (entries : List Entry) {config : Config}
    (h : config.echoPipes = true) :
    entries.flatMap (lines config.echo) = entries.map text := by
  induction entries with
  | nil => rfl
  | cons entry entries ih =>
    have hentry : entry.lines config.echo = [entry.text] := by
      cases entry <;> simp [lines, text, Config.echo, h]
    rw [List.flatMap_cons, ih, hentry, List.map_cons, List.singleton_append]

theorem flatMap_lines_of_no_echo (entries : List Entry) {config : Config}
    (h : config.echoPipes = false) :
    entries.flatMap (lines config.echo) = (entries.filter fun e => !e.isEcho).map text := by
  induction entries with
  | nil => rfl
  | cons entry entries ih =>
    rw [List.flatMap_cons, ih]
    cases entry with
    | line text => rfl
    | echo v =>
      have hecho : config.echo v = [] := by simp [Config.echo, h]
      simp only [lines, hecho, List.nil_append]
      rfl

end Entry

/-- The requests of a transcript, in order. -/
def Transcript.requests (t : Transcript σ α) : List Request := t.tray.requests.reverse

namespace Session

open Eval

/-- The session with bars that echo or do not. -/
def echoing (s : Session σ) (echoPipes : Bool) : Session σ :=
  { s with engine := s.engine.echoing echoPipes }

/-- The session as a script with this transcript leaves it. -/
def leftBy (s : Session σ) (t : Transcript σ Value) : Session σ :=
  { s with context := t.context, dice := t.tray.dice }

/-- What comes of a script by its transcript, with bars that echo or do not and with any log. -/
theorem runLogged_of_transcript {s : Session σ} (text : String)
    {transcript : Option (Transcript σ Value)}
    (h : ∀ echo log, runEchoing s.engine echo text ⟨s.context, log, ⟨s.dice, []⟩⟩ =
      transcript.map fun t => t.onto echo log) (echoPipes : Bool) (log : Log) :
    (s.echoing echoPipes).runLogged log text = transcript.map fun t =>
      (⟨t.result, (log.record (s.echoing echoPipes).engine.config.echo t.entries).lines,
        t.requests⟩, (s.echoing echoPipes).leftBy t) := by
  have hrun : ∀ m, Eval.run (s.echoing echoPipes).engine text m =
      runEchoing s.engine (s.echoing echoPipes).engine.config.echo text m := fun m => by
    have heval : eval (s.echoing echoPipes).engine = evalEchoing s.engine
        (s.echoing echoPipes).engine.config.echo (s.engine.config.maxDepth + 1) := by
      funext e m
      unfold eval
      rw [evalWithin_eq_evalEchoing, echoing, evalEchoing_echoing]
      rfl
    rw [Eval.run, heval, runEchoing]
  unfold runLogged
  dsimp only
  rw [hrun, echoing, h, Option.map_map]
  rfl

/-- A script has one transcript, whether bars echo or not, and whether the log keeps its lines or
drops them. Its value, its requests and what it leaves the session with are those of the transcript
in all cases. With echo the log is the whole transcript, and without echo it is the transcript
without the entries of bars. What the entries of bars are is told by bars that log anything at all:
whatever they log of a value stands in the place of such an entry, and all else stays. -/
theorem logging_never_influences_computation (s : Session σ) (text : String) :
    ∃ transcript : Option (Transcript σ Value),
      ((s.echoing true).run text = transcript.map fun t =>
        (⟨t.result, t.entries.map Entry.text, t.requests⟩, (s.echoing true).leftBy t)) ∧
      ((s.echoing false).run text = transcript.map fun t =>
        (⟨t.result, (t.entries.filter fun e => !e.isEcho).map Entry.text, t.requests⟩,
          (s.echoing false).leftBy t)) ∧
      (∀ echoPipes, (s.echoing echoPipes).runLogged .silent text = transcript.map fun t =>
        (⟨t.result, [], t.requests⟩, (s.echoing echoPipes).leftBy t)) ∧
      ∀ echo log, runEchoing s.engine echo text ⟨s.context, log, ⟨s.dice, []⟩⟩ =
        transcript.map fun t => t.onto echo log := by
  obtain ⟨transcript, h⟩ := transcribes_text
    (transcribes_evalEchoing s.engine (s.engine.config.maxDepth + 1)) text s.context ⟨s.dice, []⟩
  have hlogged := runLogged_of_transcript text h
  refine ⟨transcript, ?echo, ?noEcho, fun echoPipes => ?silent, h⟩
  case echo =>
    have hecho : (s.echoing true).engine.config.echoPipes = true := rfl
    refine (hlogged true .empty).trans ?_
    simp only [Log.lines_record_empty, Entry.flatMap_lines_of_echo _ hecho]
  case noEcho =>
    have hecho : (s.echoing false).engine.config.echoPipes = false := rfl
    refine (hlogged false .empty).trans ?_
    simp only [Log.lines_record_empty, Entry.flatMap_lines_of_no_echo _ hecho]
  case silent =>
    refine (hlogged echoPipes .silent).trans ?_
    simp only [Log.record_silent, Log.lines]

end Session

end DiceScript
