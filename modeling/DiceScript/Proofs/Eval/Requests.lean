import DiceScript.Proofs.Eval.Composed
import DiceScript.Proofs.Eval.Ending

/-!
The requests for numbers. Whatever a script does with dice, the bounds that it asks between are in
order; and the answer to a mark that picks at random is the position of a part.
-/

namespace DiceScript

variable {σ α β : Type}

/-! ## Requests in order -/

namespace Run

/-- A run keeps the requests orderly: as long as they are on every machine that it looks at, they
are on every machine that it leaves. -/
def KeepsOrder : Run σ α → Prop
  | done _ | breakdown => True
  | look next => ∀ m, m.tray.Orderly → (next m).KeepsOrder
  | put m next => m.tray.Orderly ∧ next.KeepsOrder
  | ask _ next => ∀ v, (next v).KeepsOrder
  | askReduced _ next => ∀ w, (next w).KeepsOrder

theorem keepsOrder_bind {run : Run σ α} {next : α → Run σ β} (h : run.KeepsOrder)
    (hnext : ∀ a, (next a).KeepsOrder) : (run >>= next).KeepsOrder := by
  change (run.bind next).KeepsOrder
  induction run with
  | done a => exact hnext a
  | breakdown => trivial
  | look _ ih => exact fun m hm => ih m (h m hm)
  | put _ _ ih => exact ⟨h.1, ih h.2⟩
  | ask _ _ ih => exact fun v => ih v (h v)
  | askReduced _ _ ih => exact fun w => ih w (h w)

theorem keepsOrder_modifyContext (change : Context → Context) :
    (Run.modifyContext change : Run σ Unit).KeepsOrder := fun _ hm => ⟨hm, trivial⟩

theorem keepsOrder_context : (Run.context : Run σ Context).KeepsOrder := fun _ _ => trivial

theorem keepsOrder_evalText (text : String) : (Eval.evalText text : Run σ Value).KeepsOrder := by
  unfold Eval.evalText
  split
  · exact fun _ => trivial
  · trivial

theorem keepsOrder_elevate (name : String) (v : Value) :
    (Eval.elevate name v : Run σ Value).KeepsOrder := by
  refine keepsOrder_bind keepsOrder_context fun c => ?_
  split
  · exact keepsOrder_bind (keepsOrder_modifyContext _) fun _ => trivial
  · trivial

theorem keepsOrder_invoke (f : Function) (args : List Value) :
    (Eval.invoke f args : Run σ (Value × Frame)).KeepsOrder := by
  refine keepsOrder_bind (keepsOrder_modifyContext _) fun _ => ?_
  refine keepsOrder_bind (keepsOrder_evalText f.body) fun result => ?_
  refine keepsOrder_bind keepsOrder_context fun c => ?_
  exact keepsOrder_bind (keepsOrder_modifyContext _) fun _ => trivial

/-- Whatever a rule is put together from keeps the requests orderly. -/
theorem keepsOrder_of_composed {mayElevate : String → Prop} {mayCopy : Prop} {run : Run σ α}
    (h : run.Composed mayElevate mayCopy) : run.KeepsOrder := by
  induction h with
  | pure _ | breakdown => trivial
  | bind _ _ ihrun ihnext => exact keepsOrder_bind ihrun ihnext
  | eval _ | reduce _ => exact fun _ => trivial
  | context => exact keepsOrder_context
  | assign name v => exact keepsOrder_modifyContext (·.assign name v)
  | elevate _ v => exact keepsOrder_elevate _ v
  | invoke f args => exact keepsOrder_invoke f args
  | copyBack _ frame passed => exact keepsOrder_modifyContext (Eval.copyBack frame passed)
  | writeLine _ => exact fun _ hm => ⟨hm, trivial⟩
  | withTray h => exact fun m hm => ⟨h.orderly m.tray hm, trivial⟩

end Run

/-- A computation that started with orderly requests ends with orderly requests. -/
def KeepsOrder (f : Machine σ → Outcome σ α) : Prop :=
  ∀ m r, m.tray.Orderly → f m = some r → r.2.tray.Orderly

section

variable {eval : Evaluator σ} (heval : ∀ e, KeepsOrder (eval e))

include heval

theorem keepsOrder_text (s : String) : KeepsOrder (eval.text s) := by
  intro m r hm hr
  obtain ⟨script, -, hscript⟩ := Option.bind_eq_some_iff.1 hr
  exact heval script.root m r hm hscript

theorem keepsOrder_reduceWithin (p : Nat) (v : Value) : KeepsOrder (eval.reduceWithin p v) := by
  intro m r hm hr
  induction p generalizing v m with
  | zero =>
    cases v with
    | expression s => cases hr
    | _ =>
      cases hr
      exact hm
  | succ p ih =>
    cases v with
    | expression s =>
      obtain ⟨⟨w, m'⟩, hw, hr⟩ := Option.bind_eq_some_iff.1 hr
      exact ih w m' (keepsOrder_text heval s m _ hm hw) hr
    | _ =>
      cases hr
      exact hm

theorem keepsOrder_outcome (p : Nat) {run : Run σ α} (h : run.KeepsOrder) :
    KeepsOrder (run.outcome p eval) := by
  intro m r hm hr
  induction run generalizing m with
  | done a =>
    cases hr
    exact hm
  | breakdown => cases hr
  | look next ih => exact ih m (h m hm) m hm hr
  | put m' next ih => exact ih h.2 m' h.1 hr
  | ask e next ih =>
    obtain ⟨⟨v, m'⟩, hv, hr⟩ := Option.bind_eq_some_iff.1 hr
    exact ih v (h v) m' (heval e m _ hm hv) hr
  | askReduced v next ih =>
    obtain ⟨⟨w, m'⟩, hw, hr⟩ := Option.bind_eq_some_iff.1 hr
    exact ih w (h w) m' (keepsOrder_reduceWithin heval p v m _ hm hw) hr

end

/-- A roller that answers within the bounds it is asked between, if they are in order. -/
def Roller.Fair (roller : Roller σ) : Prop :=
  ∀ lower upper dice, lower ≤ upper →
    lower ≤ (roller.answer lower upper dice).1 ∧ (roller.answer lower upper dice).1 ≤ upper

/-- A part of a container is picked at random: one number is asked for, from zero to the last
position of a part, and the part stands at the position that is the answer. No position is beyond
the greatest integer. -/
def Roller.Picks (roller : Roller σ) (c : Value) (tray : Tray σ) (part : Value)
    (after : Tray σ) : Prop :=
  ∃ (last : Integer) (place : Nat),
    last.toInt = min (c.parts.length : Int) Integer.greatest - 1 ∧
    (roller.ask 0 last tray).1.toInt = place ∧ (roller.ask 0 last tray).2 = after ∧
    c.parts[place]? = some part

namespace Eval

variable {engine : Engine σ} {n : Nat} {e : Expr} {m : Machine σ} {t u : Task σ}

theorem keepsOrder_step (e : Expr) : (step engine e).KeepsOrder :=
  Run.keepsOrder_of_composed (composed_step engine e)

/-- Evaluation keeps the requests orderly. The induction is on the levels left. -/
theorem keepsOrder_evalWithin (engine : Engine σ) (n : Nat) (e : Expr) :
    KeepsOrder (evalWithin engine n e) := by
  induction n generalizing e with
  | zero =>
    rintro m r hm ⟨⟩
    exact hm
  | succ n ih => exact keepsOrder_outcome ih _ (keepsOrder_step e)

theorem orderly_of_gives {r : Value × Machine σ} (h : Gives engine n e m r)
    (hm : m.tray.Orderly) : r.2.tray.Orderly := by
  obtain ⟨p, hp⟩ := h
  exact keepsOrder_evalWithin _ n e m r hm hp

theorem orderly_of_textGives {s : String} {r : Value × Machine σ} (h : TextGives engine n s m r)
    (hm : m.tray.Orderly) : r.2.tray.Orderly := by
  obtain ⟨p, hp⟩ := h
  exact keepsOrder_text (keepsOrder_evalWithin _ n) s m r hm hp

theorem orderly_of_reduces {v : Value} {r : Value × Machine σ} (h : Reduces engine n v m r)
    (hm : m.tray.Orderly) : r.2.tray.Orderly := by
  obtain ⟨p, hp⟩ := h
  exact keepsOrder_reduceWithin (keepsOrder_evalWithin _ n) p v m r hm hp

/-! ## Everything that a run comes to -/

/-- The machine that a task is to be done on. -/
def Task.machine : Task σ → Machine σ
  | .evaluate _ _ m | .reduce _ _ m | .breakdown m => m

theorem machine_readTask (n : Nat) (s : String) (m : Machine σ) : (readTask n s m).machine = m := by
  unfold readTask
  split <;> rfl

theorem orderly_of_meets {run : Run σ α} (ht : Meets engine n run m t) (h : run.KeepsOrder)
    (hm : m.tray.Orderly) : t.machine.tray.Orderly := by
  induction ht with
  | look _ ih => exact ih (h _ hm) hm
  | put _ ih => exact ih h.2 h.1
  | breakdown | ask | askReduced => exact hm
  | afterAsk hv _ ih => exact ih (h _) (orderly_of_gives hv hm)
  | afterReduced hw _ ih => exact ih (h _) (orderly_of_reduces hw hm)

theorem orderly_of_callsFor (htu : CallsFor engine t u) (h : t.machine.tray.Orderly) :
    u.machine.tray.Orderly := by
  cases htu with
  | rule hmeets => exact orderly_of_meets hmeets (keepsOrder_step _) h
  | text => rwa [machine_readTask]
  | next hgives => exact orderly_of_textGives hgives h

theorem orderly_of_reaches (htu : Reaches engine t u) (h : t.machine.tray.Orderly) :
    u.machine.tray.Orderly := by
  induction htu with
  | refl => exact h
  | tail _ hcall ih => exact orderly_of_callsFor hcall ih

/-! ## Picking at random -/

/-- A fair answer to the mark that picks at random is the position of a part. -/
theorem picks_of_fair {roller : Roller σ} (hfair : roller.Fair) {c : Value} {mark : String}
    {count : Integer} (hcount : c.partCount mark = .ok count) (hne : count ≠ 0) (tray : Tray σ) :
    ∃ part, roller.Picks c tray part (roller.ask 0 (count - 1) tray).2 ∧
      c.at? (.int (roller.ask 0 (count - 1) tray).1) = .ok part := by
  obtain ⟨hlast, htoInt⟩ := Value.last_of_partCount hcount hne
  obtain ⟨hlower, hupper⟩ : 0 ≤ (roller.ask 0 (count - 1) tray).1 ∧
      (roller.ask 0 (count - 1) tray).1 ≤ count - 1 := hfair 0 (count - 1) tray.dice hlast
  have hlength := Value.toInt_of_partCount hcount
  rw [Int64.le_iff_toInt_le, Int64.toInt_zero] at hlower
  rw [Int64.le_iff_toInt_le, htoInt] at hupper
  -- the greatest number that is asked for is below the number of parts, even if the count of the
  -- parts stopped at the greatest integer
  obtain ⟨place, hplace⟩ := Int.eq_ofNat_of_zero_le hlower
  have hlt : place < c.parts.length := by omega
  have hpart : c.parts[place]? = some c.parts[place] := List.getElem?_eq_getElem hlt
  refine ⟨c.parts[place], ⟨count - 1, place, ?_, hplace, rfl, hpart⟩, ?_⟩
  · rw [htoInt, hlength]
  · refine Value.at?_of_parts hlower ?_
    rwa [hplace, Int.toNat_natCast]

/-- What an index with the mark that picks at random does: it asks for a position once, and gives
the part at the answer. -/
theorem comes_indexByMark (hfair : engine.roller.Fair) {c : Value} (hc : c.Pickable) :
    ∃ part after, engine.roller.Picks c m.tray part after ∧
      Comes engine n (indexByMark engine.roller c Value.randomMark) m
        (part, { m with tray := after }) := by
  obtain ⟨count, hcount, hne⟩ := Value.partCount_of_pickable hc Value.randomMark
  obtain ⟨part, hpicks, hat⟩ := picks_of_fair hfair hcount hne m.tray
  refine ⟨part, _, hpicks, 0, ?_⟩
  have hmark : Value.randomMark ≠ Value.countMark := by decide
  simp only [indexByMark, hcount, if_neg hmark, if_pos, if_neg hne, Run.outcome_bind,
    Run.outcome_withTray, Option.bind_some, hat, Run.ofExcept, Run.outcome_pure]

theorem gives_index (hfair : engine.roller.Fair) {container position : Expr}
    {m₁ m₂ : Machine σ} {c : Value} (hcontainer : Gives engine n container m (c, m₁))
    (hposition : Gives engine n position m₁ (.symbol Value.randomMark, m₂)) (hc : c.Pickable) :
    ∃ part after, engine.roller.Picks c m₂.tray part after ∧
      Gives engine (n + 1) (.index container position) m (part, { m₂ with tray := after }) := by
  obtain ⟨part, after, hpicks, hcomes⟩ := comes_indexByMark (n := n) (m := m₂) hfair hc
  refine ⟨part, after, hpicks, gives_succ.2 ?_⟩
  -- neither operand is an error, so the mark is looked at
  have herror : c.isError = false := by
    cases c <;> first | rfl | exact hc.elim
  have hmark : (Value.symbol Value.randomMark).isError = false := rfl
  refine comes_ask.2 ⟨c, m₁, hcontainer, comes_ask.2 ⟨_, m₂, hposition, ?_⟩⟩
  simpa only [Run.bind, herror, hmark, Bool.false_eq_true, if_false] using hcomes

/-- For every script on every machine that has made no requests: in every request that its run makes
on the way to anything that it comes to, and to its end if it ends, the bounds are in order. And if
the roller answers within them, an index with the mark that picks at random gives the part at the
position that is the answer, of an array or a string that is not empty and of a range whose length
is an integer. -/
theorem requests_are_in_order_and_answers_are_positions (engine : Engine σ) (text : String)
    (m : Machine σ) (hm : m.tray.requests = []) :
    ((∀ t, Reaches engine (scriptTask engine text m) t → t.machine.tray.Orderly) ∧
      ∀ r, TextGives engine (engine.config.maxDepth + 1) text m r → r.2.tray.Orderly) ∧
    (engine.roller.Fair → ∀ n container position m m₁ m₂ c,
      Gives engine n container m (c, m₁) →
      Gives engine n position m₁ (.symbol Value.randomMark, m₂) → c.Pickable →
      ∃ part after, engine.roller.Picks c m₂.tray part after ∧
        Gives engine (n + 1) (.index container position) m (part, { m₂ with tray := after })) := by
  have hstart : m.tray.Orderly := by
    unfold Tray.Orderly
    rw [hm]
    exact nofun
  refine ⟨⟨fun t ht => orderly_of_reaches ht ?_, fun r hr => orderly_of_textGives hr hstart⟩, ?_⟩
  · rwa [scriptTask, machine_readTask]
  exact fun hfair n container position m m₁ m₂ c hcontainer hposition hc =>
    gives_index hfair hcontainer hposition hc

/-- Answers that are laid out in advance are moved between the bounds. -/
theorem queue_fair : Roller.queue.Fair := by
  intro lower upper dice h
  cases dice with
  | nil => exact ⟨Int64.le_refl lower, h⟩
  | cons n rest =>
    have hanswer : (Roller.queue.answer lower upper (n :: rest)).1 =
        min (max n lower) upper := rfl
    rw [hanswer, Int64.le_iff_toInt_le, Int64.le_iff_toInt_le, Integer.toInt_min, Integer.toInt_max]
    rw [Int64.le_iff_toInt_le] at h
    omega

/-- The meals of a tavern. -/
def meals : List String := ["stew", "eel", "pie"]

/-- A roll for the tavern, and one of its meals. -/
def supper : String := "rand(1, 6) > 2 ? [\"stew\", \"eel\", \"pie\"][~] : 2d6"

/-- A machine with two answers laid out. -/
def hungry : Machine (List Integer) := { blankMachine with tray := ⟨[4, 1], []⟩ }

/-- The roll is a four, and the eel is picked at the position that is the next answer. -/
theorem a_meal_is_picked_at_its_position :
    (∃ r, run ⟨.standard, .queue, 1⟩ supper hungry = some r ∧ r.1.text = "eel" ∧
      r.2.tray.requests = [⟨0, 2, 1⟩, ⟨1, 6, 4⟩] ∧ r.2.tray.Orderly) ∧
    ∃ part after, Roller.queue.Picks (.array (meals.map .str) none) hungry.tray part after ∧
      Gives ⟨.standard, .queue, 1⟩ 3 (.index (.array (meals.map .text)) (.symbol "~")) hungry
        (part, { hungry with tray := after }) := by
  obtain ⟨horderly, hpicks⟩ := requests_are_in_order_and_answers_are_positions
    ⟨.standard, .queue, 1⟩ supper hungry rfl
  constructor
  · have hseen : (run ⟨.standard, .queue, 1⟩ supper hungry).map
        (fun r => (r.1.text, r.2.tray.requests)) =
          some ("eel", [⟨0, 2, 1⟩, ⟨1, 6, 4⟩]) := by decide +kernel
    obtain ⟨r, hr, hsame⟩ := Option.map_eq_some_iff.1 hseen
    obtain ⟨htext, hrequests⟩ := Prod.mk.inj hsame
    exact ⟨r, hr, htext, hrequests, horderly.2 r ⟨1, hr⟩⟩
  · exact hpicks queue_fair 2 _ _ hungry hungry hungry (.array (meals.map .str) none) ⟨0, rfl⟩
      ⟨0, rfl⟩ nofun

end Eval

end DiceScript
