import DiceScript.Proofs.Eval.Outcome
import DiceScript.Proofs.Grammar.Mistakes.Rules

/-!
When the evaluation of a script ends. Every rule goes one level deeper for the expressions it asks
for, and no rule may go deeper than the last level. The one thing that stays on its level is the
reduction of a stored expression whose member is asked for. So a run ends exactly when it comes to
no stored expression that goes on giving stored expressions for ever, and to no text whose reading
breaks down.
-/

namespace DiceScript

variable {σ α : Type}

/-- The engine with another patience. -/
def Engine.withPatience (engine : Engine σ) (p : Nat) : Engine σ := { engine with patience := p }

/-! ## More patience changes no outcome -/

/-- Where the first evaluator gives an outcome, the second gives the same. -/
def Evaluator.Below (a b : Evaluator σ) : Prop := ∀ e m r, a e m = some r → b e m = some r

theorem Evaluator.Below.text {a b : Evaluator σ} (hab : a.Below b) {s : String} {m : Machine σ}
    {r : Value × Machine σ} (h : a.text s m = some r) : b.text s m = some r := by
  obtain ⟨script, hparse, hr⟩ := Option.bind_eq_some_iff.1 h
  exact Option.bind_eq_some_iff.2 ⟨script, hparse, hab _ _ _ hr⟩

theorem reduceWithin_of_not_expression (eval : Evaluator σ) (p : Nat) {v : Value} (m : Machine σ)
    (h : ∀ s, v ≠ .expression s) : eval.reduceWithin p v m = some (v, m) := by
  cases v <;> cases p <;> first | rfl | exact absurd rfl (h _)

theorem reduceWithin_mono {a b : Evaluator σ} (hab : a.Below b) {p q : Nat} (hpq : p ≤ q)
    (v : Value) (m : Machine σ) (r : Value × Machine σ) (h : a.reduceWithin p v m = some r) :
    b.reduceWithin q v m = some r := by
  induction p generalizing q v m with
  | zero =>
    by_cases hv : ∃ s, v = .expression s
    · obtain ⟨s, rfl⟩ := hv
      cases h
    · have hv' : ∀ s, v ≠ .expression s := fun s hs => hv ⟨s, hs⟩
      rw [reduceWithin_of_not_expression _ _ _ hv'] at h ⊢
      exact h
  | succ p ih =>
    by_cases hv : ∃ s, v = .expression s
    · obtain ⟨s, rfl⟩ := hv
      -- one stored expression is evaluated on both sides, and one less may follow
      obtain ⟨q, rfl⟩ : ∃ k, q = k + 1 := ⟨q - 1, by omega⟩
      simp only [Evaluator.reduceWithin, Option.bind_eq_some_iff] at h ⊢
      obtain ⟨⟨w, m'⟩, hw, hr⟩ := h
      exact ⟨(w, m'), hab.text hw, ih (by omega) w m' hr⟩
    · have hv' : ∀ s, v ≠ .expression s := fun s hs => hv ⟨s, hs⟩
      rw [reduceWithin_of_not_expression _ _ _ hv'] at h ⊢
      exact h

theorem outcome_mono {a b : Evaluator σ} (hab : a.Below b) {p q : Nat} (hpq : p ≤ q)
    (run : Run σ α) (m : Machine σ) (r : α × Machine σ) (h : run.outcome p a m = some r) :
    run.outcome q b m = some r := by
  induction run generalizing m with
  | done x => exact h
  | breakdown => cases h
  | look next ih => exact ih m m h
  | put m' next ih => exact ih m' h
  | ask e next ih =>
    simp only [Run.outcome, Option.bind_eq_some_iff] at h ⊢
    obtain ⟨⟨v, m'⟩, hv, hr⟩ := h
    exact ⟨(v, m'), hab _ _ _ hv, ih v m' hr⟩
  | askReduced v next ih =>
    simp only [Run.outcome, Option.bind_eq_some_iff] at h ⊢
    obtain ⟨⟨w, m'⟩, hw, hr⟩ := h
    exact ⟨(w, m'), reduceWithin_mono hab hpq v m _ hw, ih w m' hr⟩

namespace Eval

/-- All that a rule looks at is the roller, and whether bars echo. -/
theorem step_congr {a b : Engine σ} (hroller : a.roller = b.roller)
    (hecho : a.config.echoPipes = b.config.echoPipes) : ∀ e, step a e = step b e
  | .sequence first _ => by simp only [step, step_congr hroller hecho first]
  | .pipe first _ => by simp only [step, step_congr hroller hecho first, hecho]
  | .dice _ | .multiplied .. | .index .. | .call .. => by simp only [step, hroller]
  | .empty | .number _ | .text _ | .symbol _ | .var _ | .stored _ | .error _ | .unary ..
  | .binary .. | .ternary .. | .shift .. | .pair .. | .property .. | .method .. | .assign ..
  | .assignIndex .. | .choice _ | .loop .. | .apply .. | .function .. | .array _ | .bonus ..
  | .defer _ | .event _ => rfl

theorem step_withPatience (engine : Engine σ) (p : Nat) (e : Expr) :
    step (engine.withPatience p) e = step engine e :=
  step_congr (a := engine.withPatience p) (b := engine) rfl rfl e

variable (engine : Engine σ)

theorem evalWithin_mono {p q : Nat} (hpq : p ≤ q) (n : Nat) :
    Evaluator.Below (evalWithin (engine.withPatience p) n)
      (evalWithin (engine.withPatience q) n) := by
  induction n with
  | zero => exact fun e m r h => h
  | succ n ih =>
    intro e m r h
    simp only [evalWithin, step_withPatience] at h ⊢
    exact outcome_mono ih hpq _ m r h

/-! ## What comes of a run, whatever patience it takes -/

/-- With enough patience, an expression with some number of levels left gives an outcome. -/
def Gives (n : Nat) (e : Expr) (m : Machine σ) (r : Value × Machine σ) : Prop :=
  ∃ p, evalWithin (engine.withPatience p) n e m = some r

/-- With enough patience, a text with some number of levels left is read and gives an outcome. -/
def TextGives (n : Nat) (s : String) (m : Machine σ) (r : Value × Machine σ) : Prop :=
  ∃ p, (evalWithin (engine.withPatience p) n).text s m = some r

/-- With enough patience, a value is reduced to what is no stored expression. -/
def Reduces (n : Nat) (v : Value) (m : Machine σ) (r : Value × Machine σ) : Prop :=
  ∃ p, (evalWithin (engine.withPatience p) n).reduceWithin p v m = some r

/-- With enough patience, a run has an outcome. -/
def Comes (n : Nat) (run : Run σ α) (m : Machine σ) (r : α × Machine σ) : Prop :=
  ∃ p, run.outcome p (evalWithin (engine.withPatience p) n) m = some r

variable {engine} {n : Nat} {m m' : Machine σ}

theorem gives_succ {e : Expr} {r : Value × Machine σ} :
    Gives engine (n + 1) e m r ↔ Comes engine n (step engine e) m r := by
  unfold Gives Comes
  simp only [evalWithin, step_withPatience]
  rfl

theorem gives_unique {e : Expr} {r r' : Value × Machine σ} (h : Gives engine n e m r)
    (h' : Gives engine n e m r') : r = r' := by
  obtain ⟨p, hp⟩ := h
  obtain ⟨q, hq⟩ := h'
  have h1 := evalWithin_mono engine (Nat.le_max_left p q) n e m r hp
  have h2 := evalWithin_mono engine (Nat.le_max_right p q) n e m r' hq
  exact Option.some.inj (h1.symm.trans h2)

theorem textGives_iff {s : String} {r : Value × Machine σ} :
    TextGives engine n s m r ↔
      ∃ script, Script.parse s = some script ∧ Gives engine n script.root m r := by
  constructor
  · rintro ⟨p, hp⟩
    obtain ⟨script, hparse, hr⟩ := Option.bind_eq_some_iff.1 hp
    exact ⟨script, hparse, p, hr⟩
  · rintro ⟨script, hparse, p, hp⟩
    exact ⟨p, Option.bind_eq_some_iff.2 ⟨script, hparse, hp⟩⟩

theorem textGives_unique {s : String} {r r' : Value × Machine σ} (h : TextGives engine n s m r)
    (h' : TextGives engine n s m r') : r = r' := by
  obtain ⟨script, hparse, hr⟩ := textGives_iff.1 h
  obtain ⟨script', hparse', hr'⟩ := textGives_iff.1 h'
  cases hparse.symm.trans hparse'
  exact gives_unique hr hr'

theorem reduces_unique {v : Value} {r r' : Value × Machine σ} (h : Reduces engine n v m r)
    (h' : Reduces engine n v m r') : r = r' := by
  obtain ⟨p, hp⟩ := h
  obtain ⟨q, hq⟩ := h'
  have h1 := reduceWithin_mono (evalWithin_mono engine (Nat.le_max_left p q) n)
    (Nat.le_max_left p q) v m r hp
  have h2 := reduceWithin_mono (evalWithin_mono engine (Nat.le_max_right p q) n)
    (Nat.le_max_right p q) v m r' hq
  exact Option.some.inj (h1.symm.trans h2)

theorem reduces_of_not_expression {v : Value} (h : ∀ s, v ≠ .expression s) :
    Reduces engine n v m (v, m) := ⟨0, reduceWithin_of_not_expression _ _ _ h⟩

theorem reduces_expression {s : String} {r : Value × Machine σ} :
    Reduces engine n (.expression s) m r ↔
      ∃ v m', TextGives engine n s m (v, m') ∧ Reduces engine n v m' r := by
  constructor
  · rintro ⟨p, hp⟩
    cases p with
    | zero => cases hp
    | succ p =>
      simp only [Evaluator.reduceWithin, Option.bind_eq_some_iff] at hp
      obtain ⟨⟨v, m'⟩, hv, hr⟩ := hp
      refine ⟨v, m', ⟨p + 1, hv⟩, p + 1, ?_⟩
      exact reduceWithin_mono (fun _ _ _ h => h) (Nat.le_succ p) v m' r hr
  · rintro ⟨v, m', ⟨p, hp⟩, q, hq⟩
    -- the greater patience serves for both, and one more for the expression itself
    refine ⟨max p q + 1, ?_⟩
    simp only [Evaluator.reduceWithin, Option.bind_eq_some_iff]
    refine ⟨(v, m'), ?_, ?_⟩
    · have hbelow := evalWithin_mono engine (show p ≤ max p q + 1 by omega) n
      exact hbelow.text hp
    · exact reduceWithin_mono (evalWithin_mono engine (by omega) n) (by omega) v m' r hq

theorem comes_ask {e : Expr} {next : Value → Run σ α} {r : α × Machine σ} :
    Comes engine n (.ask e next) m r ↔
      ∃ v m', Gives engine n e m (v, m') ∧ Comes engine n (next v) m' r := by
  constructor
  · rintro ⟨p, hp⟩
    simp only [Run.outcome, Option.bind_eq_some_iff] at hp
    obtain ⟨⟨v, m'⟩, hv, hr⟩ := hp
    exact ⟨v, m', ⟨p, hv⟩, p, hr⟩
  · rintro ⟨v, m', ⟨p, hp⟩, q, hq⟩
    refine ⟨max p q, ?_⟩
    simp only [Run.outcome, Option.bind_eq_some_iff]
    refine ⟨(v, m'), evalWithin_mono engine (Nat.le_max_left p q) n _ _ _ hp, ?_⟩
    exact outcome_mono (evalWithin_mono engine (Nat.le_max_right p q) n) (Nat.le_max_right p q)
      _ _ _ hq

theorem comes_askReduced {v : Value} {next : Value → Run σ α} {r : α × Machine σ} :
    Comes engine n (.askReduced v next) m r ↔
      ∃ w m', Reduces engine n v m (w, m') ∧ Comes engine n (next w) m' r := by
  constructor
  · rintro ⟨p, hp⟩
    simp only [Run.outcome, Option.bind_eq_some_iff] at hp
    obtain ⟨⟨w, m'⟩, hw, hr⟩ := hp
    exact ⟨w, m', ⟨p, hw⟩, p, hr⟩
  · rintro ⟨w, m', ⟨p, hp⟩, q, hq⟩
    refine ⟨max p q, ?_⟩
    simp only [Run.outcome, Option.bind_eq_some_iff]
    refine ⟨(w, m'), ?_, ?_⟩
    · exact reduceWithin_mono (evalWithin_mono engine (Nat.le_max_left p q) n)
        (Nat.le_max_left p q) v m _ hp
    · exact outcome_mono (evalWithin_mono engine (Nat.le_max_right p q) n)
        (Nat.le_max_right p q) _ _ _ hq

/-! ## What a run comes to -/

/-- Something to be done on a machine with some number of levels left. -/
inductive Task (σ : Type)
  /-- To evaluate an expression. -/
  | evaluate (levels : Nat) (e : Expr) (m : Machine σ)
  /-- To evaluate a stored expression, and what it gives, as long as that is a stored expression. -/
  | reduce (levels : Nat) (text : String) (m : Machine σ)
  /-- To go on where the reading of a text has broken down. -/
  | breakdown (m : Machine σ)

/-- With enough patience, a task comes to an end. -/
def Ends (engine : Engine σ) : Task σ → Prop
  | .evaluate n e m => ∃ r, Gives engine n e m r
  | .reduce n s m => ∃ r, Reduces engine n (.expression s) m r
  | .breakdown _ => False

/-- To read a text and to evaluate it. -/
def readTask (n : Nat) (text : String) (m : Machine σ) : Task σ :=
  match Script.parse text with
  | some script => .evaluate n script.root m
  | none => .breakdown m

theorem readTask_of_parse {text : String} {script : Script} (h : Script.parse text = some script) :
    readTask n text m = .evaluate n script.root m := by
  rw [readTask, h]

/-- Only texts whose places cannot be told apart break down. -/
theorem long_of_breakdown {text : String} (h : readTask n text m = .breakdown m') :
    2 ^ 32 ≤ text.utf8ByteSize := by
  by_contra hsmall
  rw [readTask, Script.parse_of_small (Nat.not_le.1 hsmall)] at h
  cases h

/-- A run on a machine comes to a task: it gets there through the outcomes of all that it asks for
on the way. -/
inductive Meets (engine : Engine σ) (n : Nat) : Run σ α → Machine σ → Task σ → Prop
  | breakdown {m : Machine σ} : Meets engine n .breakdown m (.breakdown m)
  | look {next m t} : Meets engine n (next m) m t → Meets engine n (.look next) m t
  | put {m' next m t} : Meets engine n next m' t → Meets engine n (.put m' next) m t
  | ask {e next m} : Meets engine n (.ask e next) m (.evaluate n e m)
  | afterAsk {e next m v m' t} : Gives engine n e m (v, m') → Meets engine n (next v) m' t →
      Meets engine n (.ask e next) m t
  | askReduced {s next m} : Meets engine n (.askReduced (.expression s) next) m (.reduce n s m)
  | afterReduced {v next m w m' t} : Reduces engine n v m (w, m') →
      Meets engine n (next w) m' t → Meets engine n (.askReduced v next) m t

/-- A task calls for another. An expression calls for what its rule comes to, one level deeper. A
stored expression calls for its own reading and for what it gives, both on its own level. -/
inductive CallsFor (engine : Engine σ) : Task σ → Task σ → Prop
  | rule {n e m t} : Meets engine n (step engine e) m t → CallsFor engine (.evaluate (n + 1) e m) t
  | text {n s m} : CallsFor engine (.reduce n s m) (readTask n s m)
  | next {n s m s' m'} : TextGives engine n s m (.expression s', m') →
      CallsFor engine (.reduce n s m) (.reduce n s' m')

/-- A task comes to another after some number of calls. -/
def Reaches (engine : Engine σ) : Task σ → Task σ → Prop :=
  Relation.ReflTransGen (CallsFor engine)

/-- A stored expression that goes on giving stored expressions for ever. -/
def Endless (engine : Engine σ) (n : Nat) (s : String) (m : Machine σ) : Prop :=
  ∃ chain : Nat → String × Machine σ, chain 0 = (s, m) ∧
    ∀ i, TextGives engine n (chain i).1 (chain i).2
      (.expression (chain (i + 1)).1, (chain (i + 1)).2)

/-! ## What a task calls for ends with it -/

theorem ends_readTask {s : String} :
    Ends engine (readTask n s m) ↔ ∃ r, TextGives engine n s m r := by
  simp only [textGives_iff, readTask]
  cases Script.parse s with
  | none => simp [Ends]
  | some script => simp [Ends]

theorem ends_of_meets {run : Run σ α} {t : Task σ} (ht : Meets engine n run m t)
    {r : α × Machine σ} (h : Comes engine n run m r) : Ends engine t := by
  induction ht with
  | breakdown =>
    obtain ⟨p, hp⟩ := h
    cases hp
  | look _ ih => exact ih h
  | put _ ih => exact ih h
  | ask =>
    obtain ⟨v, m', hv, -⟩ := comes_ask.1 h
    exact ⟨_, hv⟩
  | afterAsk hv _ ih =>
    obtain ⟨w, m', hw, hr⟩ := comes_ask.1 h
    cases gives_unique hv hw
    exact ih hr
  | askReduced =>
    obtain ⟨w, m', hw, -⟩ := comes_askReduced.1 h
    exact ⟨_, hw⟩
  | afterReduced hv _ ih =>
    obtain ⟨w, m', hw, hr⟩ := comes_askReduced.1 h
    cases reduces_unique hv hw
    exact ih hr

theorem ends_of_callsFor {t u : Task σ} (htu : CallsFor engine t u) (h : Ends engine t) :
    Ends engine u := by
  cases htu with
  | rule hmeets =>
    obtain ⟨r, hr⟩ := h
    exact ends_of_meets hmeets (gives_succ.1 hr)
  | text =>
    obtain ⟨r, hr⟩ := h
    obtain ⟨v, m', hv, -⟩ := reduces_expression.1 hr
    exact ends_readTask.2 ⟨_, hv⟩
  | next hgives =>
    obtain ⟨r, hr⟩ := h
    obtain ⟨v, m', hv, hr'⟩ := reduces_expression.1 hr
    cases textGives_unique hgives hv
    exact ⟨r, hr'⟩

theorem ends_of_reaches {t u : Task σ} (htu : Reaches engine t u) (h : Ends engine t) :
    Ends engine u := by
  induction htu with
  | refl => exact h
  | tail _ hcall ih => exact ends_of_callsFor hcall ih

/-- With any patience, an endless chain is cut off before it ends. -/
theorem endless_not_ends {s : String} (h : Endless engine n s m) :
    ¬ Ends engine (.reduce n s m) := by
  obtain ⟨chain, h0, hchain⟩ := h
  -- wherever in the chain it starts, the patience is used up
  have hnone : ∀ p i r, (evalWithin (engine.withPatience p) n).reduceWithin p
      (.expression (chain i).1) (chain i).2 ≠ some r := by
    intro p
    suffices hk : ∀ k i r, (evalWithin (engine.withPatience p) n).reduceWithin k
        (.expression (chain i).1) (chain i).2 ≠ some r from hk p
    intro k
    induction k with
    | zero =>
      intro i r h
      cases h
    | succ k ih =>
      intro i r h
      simp only [Evaluator.reduceWithin, Option.bind_eq_some_iff] at h
      obtain ⟨⟨v, m'⟩, hv, hr⟩ := h
      cases textGives_unique (hchain i) ⟨p, hv⟩
      exact ih (i + 1) r hr
  rintro ⟨r, p, hp⟩
  refine hnone p 0 r ?_
  rw [h0]
  exact hp

/-! ## A task that does not end comes to an endless chain or to a breakdown -/

/-- A run without an outcome comes to a task that does not end. -/
theorem meets_of_not_comes (run : Run σ α) (m : Machine σ)
    (h : ∀ r, ¬ Comes engine n run m r) : ∃ t, Meets engine n run m t ∧ ¬ Ends engine t := by
  induction run generalizing m with
  | done a => exact absurd ⟨0, rfl⟩ (h (a, m))
  | breakdown => exact ⟨.breakdown m, .breakdown, id⟩
  | look next ih =>
    obtain ⟨t, ht, hends⟩ := ih m m h
    exact ⟨t, .look ht, hends⟩
  | put m' next ih =>
    obtain ⟨t, ht, hends⟩ := ih m' h
    exact ⟨t, .put ht, hends⟩
  | ask e next ih =>
    by_cases he : ∃ r, Gives engine n e m r
    · obtain ⟨⟨v, m'⟩, hv⟩ := he
      obtain ⟨t, ht, hends⟩ := ih v m' fun r hr => h r (comes_ask.2 ⟨v, m', hv, hr⟩)
      exact ⟨t, .afterAsk hv ht, hends⟩
    -- the expression that is asked for is itself the task that does not end
    · exact ⟨.evaluate n e m, .ask, he⟩
  | askReduced v next ih =>
    by_cases hv : ∃ r, Reduces engine n v m r
    · obtain ⟨⟨w, m'⟩, hw⟩ := hv
      obtain ⟨t, ht, hends⟩ := ih w m' fun r hr => h r (comes_askReduced.2 ⟨w, m', hw, hr⟩)
      exact ⟨t, .afterReduced hw ht, hends⟩
    · -- only a stored expression can fail to be reduced
      by_cases hs : ∃ s, v = .expression s
      · obtain ⟨s, rfl⟩ := hs
        exact ⟨.reduce n s m, .askReduced, hv⟩
      · exact absurd ⟨_, reduces_of_not_expression fun s hs' => hs ⟨s, hs'⟩⟩ hv

/-- One more link of the chain of a stored expression that is not reduced. -/
theorem next_of_not_ends {s : String} (h : ¬ Ends engine (.reduce n s m))
    (hgives : ∃ r, TextGives engine n s m r) :
    ∃ s' m', TextGives engine n s m (.expression s', m') ∧
      ¬ Ends engine (.reduce n s' m') := by
  obtain ⟨⟨v, m'⟩, hv⟩ := hgives
  by_cases hs : ∃ s', v = .expression s'
  · obtain ⟨s', rfl⟩ := hs
    exact ⟨s', m', hv, fun ⟨r, hr⟩ => h ⟨r, reduces_expression.2 ⟨_, _, hv, hr⟩⟩⟩
  · have hv' : Reduces engine n v m' (v, m') :=
      reduces_of_not_expression fun s' hs' => hs ⟨s', hs'⟩
    exact absurd ⟨_, reduces_expression.2 ⟨_, _, hv, hv'⟩⟩ h

/-- A stored expression that is not reduced is the start of an endless chain, or one of the texts in
its chain does not end. -/
theorem endless_or_text_of_not_ends {s : String} (h : ¬ Ends engine (.reduce n s m)) :
    Endless engine n s m ∨ ∃ s' m', Reaches engine (.reduce n s m) (readTask n s' m') ∧
      ¬ Ends engine (readTask n s' m') := by
  -- either every text in the chain can be evaluated, and then there is always a next link, or one
  -- cannot
  by_cases hall : ∀ s' m', Reaches engine (.reduce n s m) (.reduce n s' m') →
      Ends engine (readTask n s' m')
  · left
    -- the links that follow the first one, each with what lets the next one follow
    let Link := { x : String × Machine σ //
      Reaches engine (.reduce n s m) (.reduce n x.1 x.2) ∧ ¬ Ends engine (.reduce n x.1 x.2) }
    have hnext : ∀ x : Link, ∃ y : Link, TextGives engine n x.1.1 x.1.2
        (.expression y.1.1, y.1.2) := by
      rintro ⟨⟨s', m'⟩, hreach, hends⟩
      have hread := ends_readTask.1 (hall s' m' hreach)
      obtain ⟨t, m'', hgives, hends'⟩ := next_of_not_ends hends hread
      exact ⟨⟨(t, m''), hreach.tail (.next hgives), hends'⟩, hgives⟩
    choose next hgives using hnext
    refine ⟨fun i => (next^[i] ⟨(s, m), .refl, h⟩).1, rfl, fun i => ?_⟩
    simp only [Function.iterate_succ_apply']
    exact hgives _
  · right
    simp only [not_forall] at hall
    obtain ⟨s', m', hreach, hends⟩ := hall
    exact ⟨s', m', hreach.tail .text, hends⟩

/-- A rule comes to tasks one level deeper only, unless it breaks down. -/
theorem levels_of_meets {run : Run σ α} {t : Task σ} (ht : Meets engine n run m t) :
    (∃ m', t = .breakdown m') ∨ (∃ e m', t = .evaluate n e m') ∨ ∃ s m', t = .reduce n s m' := by
  induction ht with
  | breakdown => exact .inl ⟨_, rfl⟩
  | look _ ih => exact ih
  | put _ ih => exact ih
  | ask => exact .inr (.inl ⟨_, _, rfl⟩)
  | afterAsk _ _ ih => exact ih
  | askReduced => exact .inr (.inr ⟨_, _, rfl⟩)
  | afterReduced _ _ ih => exact ih

/-- Among the calls of a task there is no end: one of the texts cannot be read, or one of the stored
expressions goes on giving stored expressions for ever. -/
def Hangs (engine : Engine σ) (t : Task σ) : Prop :=
  (∃ m, Reaches engine t (.breakdown m)) ∨
    ∃ n s m, Reaches engine t (.reduce n s m) ∧ Endless engine n s m

theorem Hangs.of_reaches {t u : Task σ} (h : Reaches engine t u) (hu : Hangs engine u) :
    Hangs engine t := by
  rcases hu with ⟨m, hu⟩ | ⟨n, s, m, hu, hendless⟩
  · exact .inl ⟨m, h.trans hu⟩
  · exact .inr ⟨n, s, m, h.trans hu, hendless⟩

/-- The induction is on the levels: at the last one everything ends with an error, and above it a
rule without an outcome comes to a task one level deeper that does not end. -/
theorem hangs_of_evaluate (n : Nat) (e : Expr) (m : Machine σ)
    (h : ¬ Ends engine (.evaluate n e m)) : Hangs engine (.evaluate n e m) := by
  induction n generalizing e m with
  | zero => exact absurd ⟨_, 0, rfl⟩ h
  | succ n ih =>
    have hcomes : ∀ r, ¬ Comes engine n (step engine e) m r :=
      fun r hr => h ⟨r, gives_succ.2 hr⟩
    obtain ⟨t, ht, hends⟩ := meets_of_not_comes (step engine e) m hcomes
    refine .of_reaches (.single (.rule ht)) ?_
    -- one level deeper the induction applies, except to a chain that is endless on that level
    rcases levels_of_meets ht with ⟨m₁, rfl⟩ | ⟨e₁, m₁, rfl⟩ | ⟨s, m₁, rfl⟩
    · exact .inl ⟨m₁, .refl⟩
    · exact ih e₁ m₁ hends
    · rcases endless_or_text_of_not_ends hends with hendless | ⟨s₁, m₂, hreach, hends₁⟩
      · exact .inr ⟨n, s, m₁, .refl, hendless⟩
      · refine .of_reaches hreach ?_
        unfold readTask at hends₁ ⊢
        split at hends₁
        · exact ih _ m₂ hends₁
        · exact .inl ⟨m₂, .refl⟩

theorem hangs_of_not_ends {s : String} (h : ¬ Ends engine (readTask n s m)) :
    Hangs engine (readTask n s m) := by
  unfold readTask at h ⊢
  split at h
  · exact hangs_of_evaluate _ _ _ h
  · exact .inl ⟨m, .refl⟩

/-! ## Whole scripts -/

/-- A script comes to an end: from some patience on, its run has one and the same outcome. -/
def ScriptEnds (engine : Engine σ) (text : String) (m : Machine σ) : Prop :=
  ∃ outcome p, ∀ q ≥ p, run (engine.withPatience q) text m = some outcome

/-- The evaluation of a script, as a task. -/
def scriptTask (engine : Engine σ) (text : String) (m : Machine σ) : Task σ :=
  readTask (engine.config.maxDepth + 1) text m

theorem scriptEnds_iff_ends (engine : Engine σ) (text : String) (m : Machine σ) :
    ScriptEnds engine text m ↔ Ends engine (scriptTask engine text m) := by
  rw [scriptTask, ends_readTask]
  constructor
  · rintro ⟨r, p, hp⟩
    exact ⟨r, p, hp p (Nat.le_refl p)⟩
  · rintro ⟨r, p, hp⟩
    exact ⟨r, p, fun q hq => (evalWithin_mono engine hq _).text hp⟩

/-- For every script, machine, roller and greatest depth: the script ends, unless its evaluation
comes to a stored expression that goes on giving stored expressions for ever, or to a text whose
reading breaks down. Nothing else keeps a script from ending. -/
theorem a_script_ends_iff_no_chain_is_endless (engine : Engine σ) (text : String)
    (m : Machine σ) :
    ScriptEnds engine text m ↔
      (¬ ∃ m', Reaches engine (scriptTask engine text m) (.breakdown m')) ∧
      ¬ ∃ n s m', Reaches engine (scriptTask engine text m) (.reduce n s m') ∧
        Endless engine n s m' := by
  rw [scriptEnds_iff_ends]
  constructor
  · intro hends
    refine ⟨fun ⟨m', hreach⟩ => ends_of_reaches hreach hends, ?_⟩
    rintro ⟨n, s, m', hreach, hendless⟩
    exact endless_not_ends hendless (ends_of_reaches hreach hends)
  · intro h
    by_contra hends
    exact not_or.2 h (hangs_of_not_ends hends)

/-! ## A variable that defers to itself -/

/-- The machine that a script starts on, without variables and without rolls. -/
def blankMachine : Machine (List Integer) := ⟨.empty, .empty, ⟨[], []⟩⟩

/-- The machine on which `x` holds an expression that gives itself. -/
def selfDeferring : Machine (List Integer) :=
  { blankMachine with context := ⟨[], ⟨[("X", .expression "#x")]⟩⟩ }

theorem selfDeferring_lookup : selfDeferring.context.lookup "x" = some (.expression "#x") := by
  cbv

theorem selfDeferring_gives_itself (engine : Engine (List Integer)) (n : Nat) :
    (evalWithin engine (n + 1)).text "#x" selfDeferring =
      some (.expression "#x", selfDeferring) := by
  have hparse : Script.parse "#x" = some ⟨.defer (.var "x"), []⟩ := by cbv
  rw [Evaluator.text, hparse]
  simp [evalWithin_succ, step, defer, heldText?, selfDeferring_lookup]

/-- A member of the variable is looked for as long as patience lasts. -/
theorem selfDeferring_member (engine : Engine (List Integer)) (n : Nat) :
    evalWithin engine (n + 2) (.property (.var "x") "foo") selfDeferring = none := by
  have hnone : ∀ k, (evalWithin engine (n + 1)).reduceWithin k (.expression "#x") selfDeferring =
      none := by
    intro k
    induction k with
    | zero => rfl
    | succ k ih =>
      simp only [Evaluator.reduceWithin, selfDeferring_gives_itself, Option.bind_some, ih]
  have hfold : Name.fold "foo" = "foo" := by cbv
  rw [evalWithin_succ]
  simp [step, member, heldText?, selfDeferring_lookup, memberOf, Run.andThenAll,
    Run.valuesOrError, Value.isError, hnone, hfold]

/-- The greatest depth does not bound the reduction of stored expressions. A variable that defers to
itself keeps a script from ending, and six stored expressions in a row are reduced although only
three levels are left. -/
theorem depth_does_not_bound_reduction :
    ¬ ScriptEnds ⟨.standard, .queue, 0⟩ "x = `#x`; x.foo" blankMachine ∧
      (run ⟨⟨3, true⟩, .queue, 9⟩
        "a = `#b`; b = `#c`; c = `#d`; d = `#e`; e = `#f`; f = `[1, 2]`; a.len"
        blankMachine).map Prod.fst = some (.int 2) := by
  refine ⟨?_, by cbv⟩
  rintro ⟨r, p, hp⟩
  have hparse : Script.parse "x = `#x`; x.foo" =
      some ⟨.sequence (.assign "x" .set (.stored "#x")) (.property (.var "x") "foo"), []⟩ := by cbv
  have hrun := hp p (Nat.le_refl p)
  unfold run Evaluator.text eval at hrun
  rw [hparse] at hrun
  -- the assignment is done, and the member is all that is left
  change (evalWithin _ 10000 (.property (.var "x") "foo") selfDeferring).bind _ = _ at hrun
  rw [selfDeferring_member] at hrun
  cases hrun

end Eval

end DiceScript
