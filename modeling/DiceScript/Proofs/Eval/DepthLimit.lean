import DiceScript.Proofs.Eval.Sequencing

/-!
The depth limit matters only when it is hit. Evaluation that comes to no expression beyond the last
level never looks at the limit, so a greater one changes nothing of what comes of it.
-/

namespace DiceScript

variable {σ α : Type}

/-- The engine with another greatest depth. -/
def Engine.withMaxDepth (engine : Engine σ) (limit : Nat) : Engine σ :=
  { engine with config := { engine.config with maxDepth := limit } }

namespace Eval

/-! ## Evaluation within the limit -/

/-- A task stays within the limit: among all that it comes to, however long it takes, there is no
expression beyond the last level. -/
def StaysWithin (engine : Engine σ) (t : Task σ) : Prop :=
  ∀ e m, ¬ Reaches engine t (.evaluate 0 e m)

variable {engine : Engine σ} {n : Nat} {m : Machine σ} {t u : Task σ}

theorem StaysWithin.of_reaches (h : StaysWithin engine t) (htu : Reaches engine t u) :
    StaysWithin engine u := fun e m hu => h e m (htu.trans hu)

/-- What a stored expression is reduced to depends only on what comes of the expressions that its
reduction comes to. -/
theorem reduceWithin_of_reaches {b : Evaluator σ} (p : Nat) (v : Value) (m : Machine σ)
    (r : Value × Machine σ) (h : (evalWithin engine n).reduceWithin p v m = some r)
    (hb : ∀ s e m' r', v = .expression s →
      Reaches engine (.reduce n s m) (.evaluate n e m') →
      evalWithin engine n e m' = some r' → b e m' = some r') :
    b.reduceWithin p v m = some r := by
  induction p generalizing v m with
  | zero =>
    by_cases hv : ∃ s, v = .expression s
    · obtain ⟨s, rfl⟩ := hv
      cases h
    · have hv' : ∀ s, v ≠ .expression s := fun s hs => hv ⟨s, hs⟩
      rw [reduceWithin_of_not_expression _ _ _ hv'] at h ⊢
      exact h
  | succ p ih =>
    by_cases hv : ∃ s, v = .expression s
    · obtain ⟨s, rfl⟩ := hv
      simp only [Evaluator.reduceWithin, Option.bind_eq_some_iff] at h ⊢
      obtain ⟨⟨w, m'⟩, hw, hr⟩ := h
      obtain ⟨script, hparse, hroot⟩ := Option.bind_eq_some_iff.1 hw
      have hread : Reaches engine (.reduce n s m) (.evaluate n script.root m) := by
        rw [← readTask_of_parse hparse]
        exact .single .text
      have htext : b.text s m = some (w, m') :=
        Option.bind_eq_some_iff.2 ⟨script, hparse, hb s _ m _ rfl hread hroot⟩
      refine ⟨(w, m'), htext, ih w m' hr ?_⟩
      -- the next stored expression in the row is called for by this one
      rintro s' e m'' r' rfl hreach he
      exact hb s e m'' r' rfl (.head (.next ⟨engine.patience, hw⟩) hreach) he
    · have hv' : ∀ s, v ≠ .expression s := fun s hs => hv ⟨s, hs⟩
      rw [reduceWithin_of_not_expression _ _ _ hv'] at h ⊢
      exact h

/-- The outcome of a run depends only on what comes of the expressions that the run comes to. -/
theorem outcome_of_meets {b : Evaluator σ} (run : Run σ α) (m : Machine σ) (r : α × Machine σ)
    (h : run.outcome engine.patience (evalWithin engine n) m = some r)
    (hb : ∀ t e m' r', Meets engine n run m t → Reaches engine t (.evaluate n e m') →
      evalWithin engine n e m' = some r' → b e m' = some r') :
    run.outcome engine.patience b m = some r := by
  induction run generalizing m with
  | done a => exact h
  | breakdown => cases h
  | look next ih => exact ih m m h fun t e m' r' ht => hb t e m' r' (.look ht)
  | put m' next ih => exact ih m' h fun t e m'' r' ht => hb t e m'' r' (.put ht)
  | ask e next ih =>
    simp only [Run.outcome, Option.bind_eq_some_iff] at h ⊢
    obtain ⟨⟨v, m'⟩, hv, hr⟩ := h
    refine ⟨(v, m'), hb _ e m _ .ask .refl hv, ih v m' hr ?_⟩
    exact fun t e' m'' r' ht => hb t e' m'' r' (.afterAsk ⟨engine.patience, hv⟩ ht)
  | askReduced v next ih =>
    simp only [Run.outcome, Option.bind_eq_some_iff] at h ⊢
    obtain ⟨⟨w, m'⟩, hw, hr⟩ := h
    refine ⟨(w, m'), reduceWithin_of_reaches _ v m _ hw ?reduced, ih w m' hr ?_⟩
    case reduced =>
      rintro s e m'' r' rfl hreach
      exact hb _ e m'' r' .askReduced hreach
    exact fun t e m'' r' ht => hb t e m'' r' (.afterReduced ⟨engine.patience, hw⟩ ht)

/-- Evaluation that stays within the limit goes never too deep. The induction is on the levels. -/
theorem evalShallow_of_staysWithin (n : Nat) (e : Expr) (m : Machine σ) (r : Value × Machine σ)
    (h : evalWithin engine n e m = some r) (hstays : StaysWithin engine (.evaluate n e m)) :
    evalShallow engine n e m = some r := by
  induction n generalizing e m r with
  | zero => exact absurd .refl (hstays e m)
  | succ n ih =>
    refine outcome_of_meets (step engine e) m r h fun t e' m' r' ht hreach he => ?_
    exact ih e' m' r' he (hstays.of_reaches (.head (.rule ht) hreach))

/-! ## Nothing that does not go too deep comes to the limit -/

/-- A task has an outcome without going too deep. -/
def Shallow (engine : Engine σ) : Task σ → Prop
  | .evaluate n e m => ∃ r, evalShallow engine n e m = some r
  | .reduce n s m => ∃ p r, (evalShallow engine n).reduceWithin p (.expression s) m = some r
  | .breakdown _ => False

theorem gives_of_shallow {e : Expr} {r : Value × Machine σ}
    (h : evalShallow engine n e m = some r) : Gives engine n e m r :=
  ⟨engine.patience, evalShallow_below (Nat.le_refl n) e m r h⟩

theorem textGives_of_shallow {s : String} {r : Value × Machine σ}
    (h : (evalShallow engine n).text s m = some r) : TextGives engine n s m r :=
  ⟨engine.patience, (evalShallow_below (Nat.le_refl n)).text h⟩

theorem shallow_readTask {s : String} {r : Value × Machine σ}
    (h : (evalShallow engine n).text s m = some r) : Shallow engine (readTask n s m) := by
  obtain ⟨script, hparse, hr⟩ := Option.bind_eq_some_iff.1 h
  rw [readTask_of_parse hparse]
  exact ⟨r, hr⟩

theorem shallow_of_meets {run : Run σ α} (ht : Meets engine n run m t) {r : α × Machine σ}
    (h : run.outcome engine.patience (evalShallow engine n) m = some r) : Shallow engine t := by
  induction ht with
  | breakdown => cases h
  | look _ ih => exact ih h
  | put _ ih => exact ih h
  | ask =>
    obtain ⟨r', hr', -⟩ := Option.bind_eq_some_iff.1 h
    exact ⟨r', hr'⟩
  | afterAsk hv _ ih =>
    obtain ⟨r', hr', hr⟩ := Option.bind_eq_some_iff.1 h
    cases gives_unique hv (gives_of_shallow hr')
    exact ih hr
  | askReduced =>
    obtain ⟨r', hr', -⟩ := Option.bind_eq_some_iff.1 h
    exact ⟨engine.patience, r', hr'⟩
  | afterReduced hv _ ih =>
    obtain ⟨r', hr', hr⟩ := Option.bind_eq_some_iff.1 h
    have hr'' := reduceWithin_mono (evalShallow_below (Nat.le_refl n)) (Nat.le_refl _) _ _ _ hr'
    cases reduces_unique hv ⟨engine.patience, hr''⟩
    exact ih hr

theorem shallow_of_callsFor (htu : CallsFor engine t u) (h : Shallow engine t) :
    Shallow engine u := by
  cases htu with
  | rule hmeets =>
    obtain ⟨r, hr⟩ := h
    exact shallow_of_meets hmeets hr
  | text =>
    obtain ⟨p, r, hr⟩ := h
    cases p with
    | zero => cases hr
    | succ p =>
      obtain ⟨r', hr', -⟩ := Option.bind_eq_some_iff.1 hr
      exact shallow_readTask hr'
  | next hgives =>
    obtain ⟨p, r, hr⟩ := h
    cases p with
    | zero => cases hr
    | succ p =>
      obtain ⟨r', hr', hr⟩ := Option.bind_eq_some_iff.1 hr
      cases textGives_unique hgives (textGives_of_shallow hr')
      exact ⟨p, r, hr⟩

theorem shallow_of_reaches (htu : Reaches engine t u) (h : Shallow engine t) :
    Shallow engine u := by
  induction htu with
  | refl => exact h
  | tail _ hcall ih => exact shallow_of_callsFor hcall ih

/-- Evaluation that does not go too deep comes to nothing beyond the last level. -/
theorem staysWithin_of_shallow (h : Shallow engine t) : StaysWithin engine t := by
  intro e m hreach
  obtain ⟨r, hr⟩ := shallow_of_reaches hreach h
  cases hr

theorem staysWithin_of_text {text : String} {r : Value × Machine σ}
    (h : (evalShallow engine (engine.config.maxDepth + 1)).text text m = some r) :
    StaysWithin engine (scriptTask engine text m) := staysWithin_of_shallow (shallow_readTask h)

/-! ## Another limit -/

/-- No rule looks at the greatest depth. -/
theorem evalShallow_withMaxDepth (limit : Nat) :
    evalShallow (engine.withMaxDepth limit) n = evalShallow engine n := by
  induction n with
  | zero => rfl
  | succ n ih =>
    funext e m
    have hstep : step (engine.withMaxDepth limit) e = step engine e :=
      step_congr (a := engine.withMaxDepth limit) (b := engine) rfl rfl e
    simp only [evalShallow, hstep, ih]
    rfl

/-- If the run of a script ends and comes to no expression beyond the greatest depth, then with any
greater limit it ends as well, with the same value, variables, log, dice and requests. -/
theorem depth_limit_matters_only_when_hit (engine : Engine σ) {limit : Nat}
    (hlimit : engine.config.maxDepth ≤ limit) (text : String) (m : Machine σ)
    (r : Value × Machine σ) (hrun : run engine text m = some r)
    (hstays : StaysWithin engine (scriptTask engine text m)) :
    run (engine.withMaxDepth limit) text m = some r := by
  obtain ⟨script, hparse, hroot⟩ := Option.bind_eq_some_iff.1 hrun
  rw [scriptTask, readTask_of_parse hparse] at hstays
  have hshallow := evalShallow_of_staysWithin _ _ m r hroot hstays
  rw [← evalShallow_withMaxDepth limit] at hshallow
  have hlater := evalShallow_below (Nat.succ_le_succ hlimit) _ _ _ hshallow
  exact Option.bind_eq_some_iff.2 ⟨script, hparse, hlater⟩

/-- A function that calls itself with a smaller number, and logs a stored roll on the way. -/
def countdown : String :=
  "d = `2d6`; f = (n) => \x7b if n \x7b d | f(n - 1) \x7d else \x7b lost \x7d \x7d; f(2)"

/-- An engine with a low limit. -/
def nineLevels : Engine (List Integer) := ⟨⟨9, true⟩, .queue, 1⟩

/-- A machine with dice that are laid out. -/
def laidOut : Machine (List Integer) := ⟨.empty, .empty, ⟨[4, 2, 3, 6], []⟩⟩

/-- The countdown comes down to depth nine and no deeper, so any greater limit changes nothing. -/
theorem a_countdown_stays_within_nine_levels :
    ∃ r, run nineLevels countdown laidOut = some r ∧
      StaysWithin nineLevels (scriptTask nineLevels countdown laidOut) ∧
      nineLevels.config.maxDepth ≤ 10000 ∧ r.2.log.lines = ["6", "9", "LOST not found."] ∧
      run (nineLevels.withMaxDepth 10000) countdown laidOut = some r := by
  have hlines : ((evalShallow nineLevels (nineLevels.config.maxDepth + 1)).text countdown
      laidOut).map (fun r => r.2.log.lines) =
        some ["6", "9", "LOST not found."] := by decide +kernel
  obtain ⟨r, hr, hlog⟩ := Option.map_eq_some_iff.1 hlines
  have hrun : run nineLevels countdown laidOut = some r :=
    (evalShallow_below (Nat.le_refl _)).text hr
  have hstays := staysWithin_of_text hr
  have hlimit : nineLevels.config.maxDepth ≤ 10000 := by decide
  exact ⟨r, hrun, hstays, hlimit, hlog,
    depth_limit_matters_only_when_hit nineLevels hlimit countdown laidOut r hrun hstays⟩

end Eval

end DiceScript
