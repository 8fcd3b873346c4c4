import DiceScript.Proofs.Context.Names
import DiceScript.Proofs.Eval.Composed
import DiceScript.Proofs.Eval.Outcome

/-!
Scope, over whole evaluations. Evaluation keeps the frames of a context and the names of all frames
but the innermost, whatever is called on the way and however it ends. To say what may overwrite the
values of those frames, the changes that an evaluation makes are followed one by one.
-/

namespace DiceScript

variable {σ α β : Type}

/-! ## The changes that an evaluation makes -/

/-- A change of the variables: the expression whose rule makes it, and the variables before and
after. -/
structure Change where
  maker : Expr
  before : Context
  after : Context

/-- A way to follow the changes that are made while an expression is evaluated. -/
abbrev Tracer (σ : Type) := Expr → Machine σ → List Change

/-- The changes that are made while a text is evaluated. -/
def Tracer.text (trace : Tracer σ) (text : String) (m : Machine σ) : List Change :=
  (Script.parse text).elim [] fun script => trace script.root m

/-- The changes that are made while a value is evaluated as long as it is a stored expression. -/
def Evaluator.reduceChanges (eval : Evaluator σ) (trace : Tracer σ) :
    Nat → Value → Machine σ → List Change
  | n + 1, .expression s, m =>
    trace.text s m ++
      (eval.text s m).elim [] fun r => reduceChanges eval trace n r.1 r.2
  | _, _, _ => []

/-- The changes that a run makes, and those that are made while the expressions it asks for are
evaluated. -/
def Run.changes (patience : Nat) (eval : Evaluator σ) (trace : Tracer σ) (maker : Expr) :
    Run σ α → Machine σ → List Change
  | done _, _ => []
  | breakdown, _ => []
  | look next, m => (next m).changes patience eval trace maker m
  | put m' next, m =>
    ⟨maker, m.context, m'.context⟩ :: next.changes patience eval trace maker m'
  | ask e next, m =>
    trace e m ++ (eval e m).elim [] fun r => (next r.1).changes patience eval trace maker r.2
  | askReduced v next, m =>
    eval.reduceChanges trace patience v m ++
      (eval.reduceWithin patience v m).elim [] fun r =>
        (next r.1).changes patience eval trace maker r.2

namespace Eval

/-- The changes that are made while an expression is evaluated with some number of levels left. -/
def changesWithin (engine : Engine σ) : Nat → Tracer σ
  | 0, _, _ => []
  | n + 1, e, m =>
    (step engine e).changes engine.patience (evalWithin engine n) (changesWithin engine n) e m

end Eval

/-- Changes lead from one context to another, each starting where the one before it ends. -/
inductive Leads : Context → List Change → Context → Prop
  | none (c : Context) : Leads c [] c
  | next {maker : Expr} {c c' c'' : Context} {changes : List Change} :
      Leads c' changes c'' → Leads c (⟨maker, c, c'⟩ :: changes) c''

theorem Leads.append {c c' c'' : Context} {xs ys : List Change} (h : Leads c xs c')
    (h' : Leads c' ys c'') : Leads c (xs ++ ys) c'' := by
  induction h with
  | none c => exact h'
  | next _ ih => exact .next (ih h')

/-- What a single change may do. Apart from `^=` and copying back, no change touches a frame around
the innermost one. -/
inductive Change.Rightful : Change → Prop
  /-- The innermost frame is changed. -/
  | inner {change : Change} (h : change.after.outer = change.before.outer) : Rightful change
  /-- A frame is opened around which all frames stay as they are. -/
  | opens {change : Change} (h : change.after.outer = change.before.frames) : Rightful change
  /-- The innermost frame is closed. -/
  | closes {change : Change} (h : change.after.frames = change.before.outer) : Rightful change
  /-- A variable that the global frame has is overwritten there by `^=`. -/
  | elevates {change : Change} {name : String} {v : Value} (hmaker : change.maker.Elevates name)
      (h : change.before.elevate name v = .ok change.after) : Rightful change
  /-- What a call changed is copied back to the variables passed to it. -/
  | copiesBack {change : Change} {frame : Frame} {passed : List (Expr × String × Value)}
      (hmaker : change.maker.Calls)
      (h : change.after = Eval.copyBack frame passed change.before) : Rightful change

/-! ## Runs -/

section

variable {p : Nat} {eval : Evaluator σ} {trace : Tracer σ} {maker : Expr}

theorem changes_bind (run : Run σ α) (next : α → Run σ β) (m : Machine σ) :
    (run >>= next).changes p eval trace maker m =
      run.changes p eval trace maker m ++
        (run.outcome p eval m).elim [] fun r => (next r.1).changes p eval trace maker r.2 := by
  show (run.bind next).changes p eval trace maker m = _
  induction run generalizing m with
  | done a => rfl
  | breakdown => rfl
  | look run ih => exact ih m m
  | put m' run ih =>
    simp only [Run.bind, Run.changes, Run.outcome, ih, List.cons_append]
  | ask e run ih =>
    simp only [Run.bind, Run.changes, Run.outcome, ih]
    cases eval e m with
    | none => simp
    | some r => simp
  | askReduced v run ih =>
    simp only [Run.bind, Run.changes, Run.outcome, ih]
    cases eval.reduceWithin p v m with
    | none => simp
    | some r => simp

@[simp]
theorem changes_eval (e : Expr) (m : Machine σ) :
    (Run.eval e).changes p eval trace maker m = trace e m := by
  simp only [Run.eval, Run.changes]
  cases eval e m <;> simp

@[simp]
theorem changes_reduce (v : Value) (m : Machine σ) :
    (Run.reduce v).changes p eval trace maker m = eval.reduceChanges trace p v m := by
  simp only [Run.reduce, Run.changes]
  cases eval.reduceWithin p v m <;> simp

@[simp]
theorem changes_evalText (s : String) (m : Machine σ) :
    (Eval.evalText s).changes p eval trace maker m = trace.text s m := by
  unfold Eval.evalText Tracer.text
  cases Script.parse s with
  | none => rfl
  | some script => exact changes_eval script.root m

theorem outcome_invoke (f : Function) (args : List Value) (m : Machine σ) :
    (Eval.invoke f args).outcome p eval m =
      (eval.text f.body
        { m with context := Eval.bindParams f.params args m.context.pushScope }).bind fun r =>
          some ((r.1, r.2.context.popScope.1),
            { r.2 with context := r.2.context.popScope.2 }) := by
  simp only [Eval.invoke, Run.outcome_bind, Run.outcome_modifyContext, Run.outcome_evalText,
    Run.outcome_context, Run.outcome_pure, Option.bind_some]

theorem outcome_elevate (name : String) (v : Value) (m : Machine σ) :
    (Eval.elevate name v).outcome p eval m =
      match m.context.elevate name v with
      | .ok c => some (v, { m with context := c })
      | .error f => some (.fail f, m) := by
  simp only [Eval.elevate, Run.outcome_bind, Run.outcome_context, Option.bind_some]
  cases m.context.elevate name v <;> rfl

/-- An evaluator keeps the frames and names of contexts. -/
def Evaluator.KeepsNames (eval : Evaluator σ) : Prop :=
  ∀ e m r, eval e m = some r → m.context.Kept r.2.context

theorem Evaluator.KeepsNames.text (heval : eval.KeepsNames) {s : String} {m : Machine σ}
    {r : Value × Machine σ} (h : eval.text s m = some r) : m.context.Kept r.2.context := by
  obtain ⟨script, -, hr⟩ := Option.bind_eq_some_iff.1 h
  exact heval _ _ _ hr

theorem kept_reduceWithin (heval : eval.KeepsNames) (n : Nat) (v : Value) (m : Machine σ)
    (r : Value × Machine σ) (h : eval.reduceWithin n v m = some r) :
    m.context.Kept r.2.context := by
  induction n generalizing v m with
  | zero =>
    cases v <;> cases h
    all_goals exact .refl _
  | succ n ih =>
    cases v with
    | expression s =>
      obtain ⟨⟨w, m'⟩, hw, hr⟩ := Option.bind_eq_some_iff.1 h
      exact (heval.text hw).trans (ih w m' hr)
    | _ =>
      cases h
      exact .refl _

/-- Whatever a rule is put together from keeps the frames and names. -/
theorem kept_of_composed (heval : eval.KeepsNames) {mayElevate : String → Prop} {mayCopy : Prop}
    {run : Run σ α} (hrun : run.Composed mayElevate mayCopy) {m : Machine σ} {r : α × Machine σ}
    (h : run.outcome p eval m = some r) : m.context.Kept r.2.context := by
  induction hrun generalizing m with
  | pure a =>
    cases h
    exact .refl _
  | breakdown => cases h
  | bind _ _ ihrun ihnext =>
    rw [Run.outcome_bind] at h
    obtain ⟨r', hr', hr⟩ := Option.bind_eq_some_iff.1 h
    exact (ihrun hr').trans (ihnext _ hr)
  | eval e =>
    rw [Run.outcome_eval] at h
    exact heval e m r h
  | reduce v =>
    rw [Run.outcome_reduce] at h
    exact kept_reduceWithin heval p v m r h
  | context =>
    cases h
    exact .refl _
  | assign name v =>
    cases h
    exact Context.kept_assign _ _ _
  | @elevate name hmay v =>
    rw [outcome_elevate] at h
    split at h
    case h_1 c hc =>
      cases h
      exact Context.kept_elevate hc
    case h_2 =>
      cases h
      exact .refl _
  -- the body is evaluated in a frame of its own, which is closed behind it
  | invoke f args =>
    rw [outcome_invoke] at h
    obtain ⟨r', hr', hr⟩ := Option.bind_eq_some_iff.1 h
    cases hr
    exact Context.kept_call (heval.text hr')
  | copyBack _ frame passed =>
    cases h
    exact Context.kept_copyBack frame passed _
  | writeLine line =>
    cases h
    exact .refl _
  | withTray _ =>
    cases h
    exact .refl _

/-- The changes of an evaluator lead from the variables before to those after. -/
def Evaluator.Follows (eval : Evaluator σ) (trace : Tracer σ) : Prop :=
  ∀ e m r, eval e m = some r → Leads m.context (trace e m) r.2.context

theorem Evaluator.Follows.text (heval : eval.Follows trace) {s : String} {m : Machine σ}
    {r : Value × Machine σ} (h : eval.text s m = some r) :
    Leads m.context (trace.text s m) r.2.context := by
  obtain ⟨script, hscript, hr⟩ := Option.bind_eq_some_iff.1 h
  rw [Tracer.text, hscript]
  exact heval _ _ _ hr

theorem leads_reduceWithin (heval : eval.Follows trace) (n : Nat) (v : Value) (m : Machine σ)
    (r : Value × Machine σ) (h : eval.reduceWithin n v m = some r) :
    Leads m.context (eval.reduceChanges trace n v m) r.2.context := by
  induction n generalizing v m with
  | zero =>
    have hnone : eval.reduceChanges trace 0 v m = [] := by simp [Evaluator.reduceChanges]
    rw [hnone]
    cases v <;> cases h
    all_goals exact .none _
  | succ n ih =>
    cases v with
    | expression s =>
      obtain ⟨⟨w, m'⟩, hw, hr⟩ := Option.bind_eq_some_iff.1 h
      rw [Evaluator.reduceChanges, hw]
      exact (heval.text hw).append (ih w m' hr)
    -- what is no stored expression is left as it is
    | _ =>
      cases h
      exact .none _

/-- The induction is on the run. -/
theorem leads_of_run (heval : eval.Follows trace) (run : Run σ α) {m : Machine σ}
    {r : α × Machine σ} (h : run.outcome p eval m = some r) :
    Leads m.context (run.changes p eval trace maker m) r.2.context := by
  induction run generalizing m with
  | done a =>
    cases h
    exact .none _
  | breakdown => cases h
  | look next ih => exact ih m h
  | put m' next ih => exact .next (ih h)
  | ask e next ih =>
    obtain ⟨⟨v, m'⟩, hv, hr⟩ := Option.bind_eq_some_iff.1 h
    rw [Run.changes, hv]
    exact (heval _ _ _ hv).append (ih v hr)
  | askReduced v next ih =>
    obtain ⟨⟨w, m'⟩, hw, hr⟩ := Option.bind_eq_some_iff.1 h
    rw [Run.changes, hw]
    exact (leads_reduceWithin heval p v m _ hw).append (ih w hr)

/-- A change is rightful, and of the frames that were open at some time before it none is
closed. -/
structure Change.RightfulSince (start : Context) (change : Change) : Prop where
  rightful : change.Rightful
  depth : start.frames.length ≤ change.after.frames.length

/-- Where no frame has been opened or closed in between, it does not matter which time is meant. -/
theorem Change.RightfulSince.of_kept {start later : Context} (h : start.Kept later)
    {change : Change} (hchange : change.RightfulSince later) : change.RightfulSince start :=
  ⟨hchange.rightful, h.depth ▸ hchange.depth⟩

/-- All changes that are followed are rightful, and none closes a frame that was open before the
first. -/
def Tracer.AllRightful (trace : Tracer σ) : Prop :=
  ∀ e m, ∀ change ∈ trace e m, change.RightfulSince m.context

theorem Tracer.AllRightful.text (htrace : trace.AllRightful) (s : String) (m : Machine σ) :
    ∀ change ∈ trace.text s m, change.RightfulSince m.context := by
  unfold Tracer.text
  cases Script.parse s with
  | none => nofun
  | some script => exact htrace script.root m

theorem rightful_reduceChanges (heval : eval.KeepsNames) (htrace : trace.AllRightful) (n : Nat)
    (v : Value) (m : Machine σ) :
    ∀ change ∈ eval.reduceChanges trace n v m, change.RightfulSince m.context := by
  induction n generalizing v m with
  | zero => simp [Evaluator.reduceChanges]
  | succ n ih =>
    cases v with
    | expression s =>
      intro change hchange
      rw [Evaluator.reduceChanges] at hchange
      rcases List.mem_append.1 hchange with hchange | hchange
      · exact htrace.text s m change hchange
      · cases htext : eval.text s m with
        | none =>
          rw [htext] at hchange
          cases hchange
        | some r =>
          rw [htext] at hchange
          exact .of_kept (heval.text htext) (ih _ _ change hchange)
    | _ => nofun

/-- The changes that calling a function makes: its frame is opened, its body is evaluated, and its
frame is closed. -/
theorem changes_invoke (f : Function) (args : List Value) (m : Machine σ) :
    (Eval.invoke f args).changes p eval trace maker m =
      ⟨maker, m.context, Eval.bindParams f.params args m.context.pushScope⟩ ::
        (trace.text f.body
            { m with context := Eval.bindParams f.params args m.context.pushScope } ++
          (eval.text f.body
            { m with context := Eval.bindParams f.params args m.context.pushScope }).elim []
            fun r => [⟨maker, r.2.context, r.2.context.popScope.2⟩]) := by
  rw [Eval.invoke, changes_bind, Run.outcome_modifyContext, Option.elim_some, changes_bind,
    changes_evalText, Run.outcome_evalText]
  rfl

theorem changes_elevate (name : String) (v : Value) (m : Machine σ) :
    (Eval.elevate name v).changes p eval trace maker m =
      (m.context.elevate name v).toOption.elim [] fun c => [⟨maker, m.context, c⟩] := by
  rw [Eval.elevate, changes_bind, Run.outcome_context, Option.elim_some]
  cases m.context.elevate name v <;> rfl

/-- A call closes the frame it has opened, and no other. -/
theorem rightful_popScope {c c' : Context} {params : List String} {args : List Value}
    (h : (Eval.bindParams params args c.pushScope).Kept c') :
    (Change.mk maker c' c'.popScope.2).RightfulSince c where
  rightful := .closes (Context.frames_popScope (Context.outer_ne_nil_of_call h))
  depth := (Context.kept_call h).depth.ge

theorem rightful_invoke (heval : eval.KeepsNames) (htrace : trace.AllRightful) (f : Function)
    (args : List Value) (m : Machine σ) :
    ∀ change ∈ (Eval.invoke f args).changes p eval trace maker m,
      change.RightfulSince m.context := by
  intro change hchange
  rw [changes_invoke] at hchange
  have hopened := Context.frames_of_call f.params args m.context
  rcases List.mem_cons.1 hchange with rfl | hchange
  · exact ⟨.opens hopened, hopened ▸ Context.length_outer_le _⟩
  rcases List.mem_append.1 hchange with hchange | hchange
  · have hbody := htrace.text _ _ change hchange
    exact ⟨hbody.rightful, (hopened ▸ Context.length_outer_le _).trans hbody.depth⟩
  · cases hbody : eval.text f.body
      { m with context := Eval.bindParams f.params args m.context.pushScope } with
    | none =>
      rw [hbody] at hchange
      cases hchange
    | some r =>
      rw [hbody] at hchange
      rw [List.mem_singleton.1 hchange]
      exact rightful_popScope (heval.text hbody)

theorem rightful_of_composed (heval : eval.KeepsNames) (htrace : trace.AllRightful)
    {run : Run σ α} (hrun : run.Composed maker.Elevates maker.Calls) (m : Machine σ) :
    ∀ change ∈ run.changes p eval trace maker m, change.RightfulSince m.context := by
  induction hrun generalizing m with
  | pure a =>
    intro change hchange
    cases hchange
  | breakdown => nofun
  | @bind _ _ run next hrun _ ihrun ihnext =>
    intro change hchange
    rw [changes_bind] at hchange
    rcases List.mem_append.1 hchange with hchange | hchange
    · exact ihrun m change hchange
    · cases hr : run.outcome p eval m with
      | none =>
        rw [hr] at hchange
        cases hchange
      | some r =>
        rw [hr] at hchange
        exact .of_kept (kept_of_composed heval hrun hr) (ihnext r.1 r.2 change hchange)
  | eval e =>
    intro change hchange
    rw [changes_eval] at hchange
    exact htrace e m change hchange
  | reduce v =>
    intro change hchange
    rw [changes_reduce] at hchange
    exact rightful_reduceChanges heval htrace p v m change hchange
  | context =>
    intro change hchange
    cases hchange
  | assign name v =>
    intro change hchange
    rw [List.mem_singleton.1 hchange]
    exact ⟨.inner (Context.outer_assign _ _ _), (Context.kept_assign _ _ _).depth.ge⟩
  | @elevate name hmay v =>
    intro change hchange
    rw [changes_elevate] at hchange
    cases hc : m.context.elevate name v with
    | ok c =>
      rw [hc] at hchange
      rw [List.mem_singleton.1 hchange]
      exact ⟨.elevates hmay hc, (Context.kept_elevate hc).depth.ge⟩
    | error f =>
      rw [hc] at hchange
      cases hchange
  | invoke f args => exact rightful_invoke heval htrace f args m
  | copyBack hmay frame passed =>
    intro change hchange
    rw [List.mem_singleton.1 hchange]
    exact ⟨.copiesBack hmay rfl, (Context.kept_copyBack frame passed _).depth.ge⟩
  | writeLine line =>
    intro change hchange
    rw [List.mem_singleton.1 hchange]
    exact ⟨.inner rfl, le_rfl⟩
  | withTray _ =>
    intro change hchange
    rw [List.mem_singleton.1 hchange]
    exact ⟨.inner rfl, le_rfl⟩

end

/-! ## Whole evaluations -/

namespace Eval

variable (engine : Engine σ)

/-- The induction is on the levels that are left. -/
theorem evalWithin_keepsNames (n : Nat) : (evalWithin engine n).KeepsNames := by
  induction n with
  | zero =>
    intro e m r h
    cases h
    exact .refl _
  | succ n ih =>
    intro e m r h
    exact kept_of_composed ih (composed_step engine e) h

theorem evalWithin_follows (n : Nat) : (evalWithin engine n).Follows (changesWithin engine n) := by
  induction n with
  | zero =>
    intro e m r h
    cases h
    exact .none _
  | succ n ih =>
    intro e m r h
    exact leads_of_run ih (step engine e) h

theorem changesWithin_rightful (n : Nat) : (changesWithin engine n).AllRightful := by
  induction n with
  | zero =>
    intro e m change hchange
    cases hchange
  | succ n ih =>
    intro e m
    exact rightful_of_composed (evalWithin_keepsNames engine n) ih (composed_step engine e) m

/-- Evaluating an expression, with any number of levels left, keeps the number of frames and exactly
the names of all frames but the innermost, and unbinds no name of the innermost. It goes by changes
each of which leaves the frames around the innermost one as they are, overwrites a variable of the
global frame by `^=`, or copies back what a call changed, and none of which closes a frame that was
open before. The body of a function leaves the names of all frames outside its own as they were. -/
theorem evaluation_keeps_to_its_scope (levels : Nat) :
    (∀ (e : Expr) (m m' : Machine σ) (v : Value), evalWithin engine levels e m = some (v, m') →
      m.context.Kept m'.context ∧
        Leads m.context (changesWithin engine levels e m) m'.context) ∧
    (∀ (e : Expr) (m : Machine σ), ∀ change ∈ changesWithin engine levels e m,
      change.Rightful ∧ m.context.frames.length ≤ change.after.frames.length) ∧
    ∀ (f : Function) (args : List Value) (m m' : Machine σ) (v : Value),
      (evalWithin engine levels).text f.body
          { m with context := bindParams f.params args m.context.pushScope } = some (v, m') →
      Context.SameNames m.context.frames m'.context.outer := by
  refine ⟨fun e m m' v h => ⟨?_, ?_⟩, fun e m change hchange => ?_, ?_⟩
  · exact evalWithin_keepsNames engine levels e m _ h
  · exact evalWithin_follows engine levels e m _ h
  · have hrightful := changesWithin_rightful engine levels e m change hchange
    exact ⟨hrightful.rightful, hrightful.depth⟩
  · intro f args m m' v h
    exact Context.sameNames_call ((evalWithin_keepsNames engine levels).text h)

/-- A function that changes its parameter, a variable of its own and two global variables, of which
there is only one. -/
def meddler : Function := ⟨["a"], "a = 5; b = 6; g ^= 7; h ^= 8"⟩

/-- A machine on which a call is running, with a local variable of its own. -/
def meddled : Machine (List Integer) where
  context := ⟨[⟨[("P", .int 1)]⟩], ⟨[("F", .function meddler), ("G", .int 2)]⟩⟩
  log := .empty
  tray := ⟨[], []⟩

/-- That machine inside the call of the function. -/
def insideMeddler : Machine (List Integer) :=
  { meddled with context := bindParams meddler.params [.int 1] meddled.context.pushScope }

theorem a_meddling_call_keeps_to_its_scope :
    ∃ script v m' w m'', Script.parse "f(p); q = 3" = some script ∧
      evalWithin ⟨.standard, .queue, 1⟩ 9 script.root meddled = some (v, m') ∧
      (m'.context.lookup "p").bind Value.int? = some 5 ∧
      (m'.context.lookup "g").bind Value.int? = some 7 ∧
      meddled.context.Kept m'.context ∧
      (evalWithin ⟨.standard, .queue, 1⟩ 9).text meddler.body insideMeddler = some (w, m'') ∧
      Context.SameNames meddled.context.frames m''.context.outer := by
  obtain ⟨hkept, -, hbody⟩ := evaluation_keeps_to_its_scope (σ := List Integer)
    ⟨.standard, .queue, 1⟩ 9
  have hcall : ((evalWithin ⟨.standard, .queue, 1⟩ 9).text "f(p); q = 3" meddled).map
      (fun r =>
        ((r.2.context.lookup "p").bind Value.int?, (r.2.context.lookup "g").bind Value.int?)) =
      some (some 5, some 7) := by decide +kernel
  have hinside : ((evalWithin ⟨.standard, .queue, 1⟩ 9).text meddler.body
      insideMeddler).isSome = true := by decide +kernel
  obtain ⟨⟨v, m'⟩, htext, hlookup⟩ := Option.map_eq_some_iff.1 hcall
  obtain ⟨script, hscript, hv⟩ := Option.bind_eq_some_iff.1 htext
  obtain ⟨⟨w, m''⟩, hw⟩ := Option.isSome_iff_exists.1 hinside
  obtain ⟨hp, hg⟩ := Prod.mk.inj hlookup
  exact ⟨script, v, m', w, m'', hscript, hv, hp, hg, (hkept _ _ _ _ hv).1, hw,
    hbody meddler [.int 1] meddled _ _ hw⟩

end Eval

end DiceScript
