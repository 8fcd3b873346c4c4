import DiceScript.Proofs.Eval.Ending
import DiceScript.Proofs.Eval.Records
import DiceScript.Proofs.Grammar.Joined
import DiceScript.Session

/-!
Scripts one after another. A script with a semicolon in it runs as the script in front of it and
then the one behind it in the same session, as far as evaluation does not go too deep: the
statements behind the semicolon are one level deeper in the whole script than in a script of their
own.
-/

namespace DiceScript

variable {σ : Type}

/-- What is logged of a value that a sequence goes on after. -/
def Value.complaint : Value → List String
  | .error message => [message]
  | _ => []

namespace Eval

open Run Grammar

variable (engine : Engine σ)

/-! ## Evaluation that does not go too deep -/

/-- Evaluates an expression with some number of levels left. Nothing comes of an evaluation that
asks for the value of an expression beyond them. -/
def evalShallow : Nat → Evaluator σ
  | 0, _, _ => none
  | n + 1, e, m => (step engine e).outcome engine.patience (evalShallow n) m

variable {engine} {n k : Nat}

/-- With more levels left, the same comes of an evaluation. -/
theorem evalShallow_mono (h : n ≤ k) : (evalShallow engine n).Below (evalShallow engine k) := by
  induction n generalizing k with
  | zero => exact fun e m r hr => nomatch hr
  | succ n ih =>
    obtain ⟨k, rfl⟩ : ∃ i, k = i + 1 := ⟨k - 1, by omega⟩
    intro e m r hr
    exact outcome_mono (ih (by omega)) (Nat.le_refl _) (step engine e) m r hr

/-- An evaluation that does not go too deep never comes to the error beyond the last level. -/
theorem evalShallow_below (h : n ≤ k) : (evalShallow engine n).Below (evalWithin engine k) := by
  induction n generalizing k with
  | zero => exact fun e m r hr => nomatch hr
  | succ n ih =>
    obtain ⟨k, rfl⟩ : ∃ i, k = i + 1 := ⟨k - 1, by omega⟩
    intro e m r hr
    exact outcome_mono (ih (by omega)) (Nat.le_refl _) (step engine e) m r hr

/-! ## Statements behind others -/

variable (engine) in
/-- What a statement does when the value of those before it is known. -/
def thereafter (element : Element) (v : Value) : Run σ Value := do
  if element.piped then
    if engine.config.echoPipes then writeLine v.text
  else logError v
  Run.eval element.statement

theorem outcome_followedBy (element : Element) (first : Expr) (p : Nat) (eval : Evaluator σ)
    (m : Machine σ) :
    (step engine (followedBy element.piped element.statement (some first))).outcome p eval m =
      ((step engine first).outcome p eval m).bind fun r =>
        (thereafter engine element r.1).outcome p eval r.2 := by
  unfold followedBy thereafter
  cases element.piped with
  | true =>
    simp only [if_true, step, outcome_bind]
  | false =>
    simp only [Bool.false_eq_true, if_false, step, outcome_bind]

theorem outcome_logError (v : Value) (p : Nat) (eval : Evaluator σ) (context : Context) (dice : σ)
    (lines : Array String) (requests : List Request) :
    (logError v).outcome p eval (.holding context dice lines requests) =
      some ((), .holding context dice (lines ++ v.complaint.toArray) requests) := by
  cases v <;>
    simp [logError, Value.complaint, Machine.holding, Log.writeLine, Journal.writeLine,
      Journal.finish]

/-- The first of two lists of statements is evaluated, an error of it is logged, and what follows is
evaluated as if it stood alone, if that does not go too deep. -/
theorem shallow_chained {root whole own : Expr} {y : Element} {ys : List Element}
    (hy : y.piped = false) (hwhole : chained (some root) (y :: ys) = some whole)
    (hown : chained none (y :: ys) = some own) {m : Machine σ} {r : Value × Machine σ}
    (h : (step engine whole).outcome engine.patience (evalShallow engine n) m = some r) :
    ∃ v m₁ m₂, (step engine root).outcome engine.patience (evalShallow engine n) m = some (v, m₁) ∧
      (logError v).outcome engine.patience (evalShallow engine n) m₁ = some ((), m₂) ∧
      (step engine own).outcome engine.patience (evalShallow engine n) m₂ = some r := by
  -- the last statement is the outermost one of the tree
  induction ys using List.reverseRecOn generalizing whole own r with
  | nil =>
    cases hwhole
    cases hown
    rw [outcome_followedBy] at h
    obtain ⟨⟨v, m₁⟩, hroot, hnext⟩ := Option.bind_eq_some_iff.1 h
    simp only [thereafter, hy, Bool.false_eq_true, if_false, outcome_bind] at hnext
    obtain ⟨⟨⟨⟩, m₂⟩, hlog, heval⟩ := Option.bind_eq_some_iff.1 hnext
    rw [outcome_eval] at heval
    -- alone the statement has one level more, and so the same comes of it
    exact ⟨v, m₁, m₂, hroot, hlog, evalShallow_mono (Nat.le_succ n) _ _ _ heval⟩
  | append_singleton ys z ih =>
    rw [← List.cons_append, chained_append] at hwhole hown
    obtain ⟨whole', hwhole'⟩ : ∃ e, chained (some root) (y :: ys) = some e :=
      chained_some root (y :: ys)
    obtain ⟨own', hown'⟩ : ∃ e, chained none (y :: ys) = some e := chained_some _ ys
    rw [hwhole'] at hwhole
    rw [hown'] at hown
    cases hwhole
    cases hown
    rw [outcome_followedBy] at h
    obtain ⟨r', hr', hnext⟩ := Option.bind_eq_some_iff.1 h
    obtain ⟨v, m₁, m₂, hroot, hlog, hstep⟩ := ih hwhole' hown' hr'
    refine ⟨v, m₁, m₂, hroot, hlog, ?_⟩
    rw [outcome_followedBy, hstep]
    exact hnext

/-- The same of two lists of statements of which the second is not empty. -/
theorem shallow_in_turn {xs ys : List Element} (hys : ys ≠ [])
    (hpiped : ∀ y ∈ ys.head?, y.piped = false) {m : Machine σ} {r : Value × Machine σ}
    (h : evalShallow engine (n + 1) ((chained none (xs ++ ys)).getD .empty) m = some r) :
    ∃ v m₁ m₂, evalShallow engine (n + 1) ((chained none xs).getD .empty) m = some (v, m₁) ∧
      (logError v).outcome engine.patience (evalShallow engine n) m₁ = some ((), m₂) ∧
      evalShallow engine (n + 1) ((chained none ys).getD .empty) m₂ = some r := by
  obtain ⟨y, ys, rfl⟩ := List.exists_cons_of_ne_nil hys
  obtain ⟨own, hown⟩ : ∃ e, chained none (y :: ys) = some e := chained_some _ ys
  rw [chained_append] at h
  cases hfirst : chained none xs with
  | none =>
    rw [hfirst] at h
    exact ⟨.int 0, m, m, rfl, rfl, h⟩
  | some root =>
    obtain ⟨whole, hwhole⟩ := chained_some root (y :: ys)
    rw [hfirst, hwhole] at h
    rw [hown]
    exact shallow_chained (hpiped y rfl) hwhole hown h

end Eval

namespace Session

open Grammar Eval

/-- The machine that a script of the session starts on. -/
def start (s : Session σ) : Machine σ := .holding s.context s.dice #[] []

/-- A script ends, and on the way no expression lies beyond the greatest depth. -/
def StaysShallow (s : Session σ) (text : String) : Prop :=
  ((evalShallow s.engine (s.engine.config.maxDepth + 1)).text text s.start).isSome

instance (s : Session σ) (text : String) : Decidable (s.StaysShallow text) :=
  inferInstanceAs (Decidable (_ = true))

/-- A script with a semicolon between two parts does what the two do one after the other in the
session. An error of the first one is logged in between. -/
def RunsInTurn (s : Session σ) (first second : String) : Prop :=
  ∃ output output₁ output₂ mid last,
    s.run (first ++ ";" ++ second) = some (output, last) ∧ s.run first = some (output₁, mid) ∧
    mid.run second = some (output₂, last) ∧ output.value = output₂.value ∧
    output.requests = output₁.requests ++ output₂.requests ∧
    output.log = output₁.log ++ output₁.value.complaint ++ output₂.log

theorem run_of_yield {s : Session σ} {text : String} {script : Script}
    (hparse : Script.parse text = some script) {y : Yield σ Value}
    (h : eval s.engine script.root s.start = some (y.onto #[] [])) :
    s.run text = some (⟨y.result, y.lines.toList, y.requests.reverse⟩,
      { s with context := y.context, dice := y.dice }) := by
  have hrun : Eval.run s.engine text s.start = some (y.onto #[] []) :=
    Option.bind_eq_some_iff.2 ⟨script, hparse, h⟩
  show (Eval.run s.engine text s.start).map _ = _
  rw [hrun]
  simp [Yield.onto, Machine.holding, Log.lines, Journal.lines, Journal.finish]

/-- Two scripts without mistakes, of fewer than 2 ^ 32 - 1 bytes together, run one after the other
as they do with a semicolon between them, unless that goes too deep or something reaches across the
semicolon. -/
theorem joined_scripts_run_in_turn (s : Session σ) {first second : String}
    (hsmall : first.utf8ByteSize + second.utf8ByteSize < 2 ^ 32 - 1) {front behind : Script}
    (hfront : Script.parse first = some front) (hbehind : Script.parse second = some behind)
    (hfirst : front.mistakes = []) (hsecond : behind.mistakes = []) (hroot : behind.root ≠ .empty)
    (hbar : ¬ EndsInBar (scanned first))
    (hspills : ¬ Cursor.Spills (scanned first) (scanned second))
    (hshallow : s.StaysShallow (first ++ ";" ++ second)) : s.RunsInTurn first second := by
  have hboth : (first ++ ";" ++ second).utf8ByteSize < 2 ^ 32 := by
    have hsemicolon : ";".utf8ByteSize = 1 := rfl
    rw [String.utf8ByteSize_append, String.utf8ByteSize_append, hsemicolon]
    omega
  obtain rfl : Script.ofText first = front :=
    Option.some.inj ((Script.parse_of_small (by omega)).symm.trans hfront)
  obtain rfl : Script.ofText second = behind :=
    Option.some.inj ((Script.parse_of_small (by omega)).symm.trans hbehind)
  obtain ⟨hjoined, -⟩ := statements_joined hboth hfirst hsecond hbar hspills
  obtain ⟨q, -, hparse, -⟩ := statements_of_text (first ++ ";" ++ second) (Nat.le_refl _)
  obtain ⟨q₁, -, hparse₁, -⟩ := statements_of_text first (Nat.le_refl _)
  obtain ⟨q₂, hs₂, hparse₂, -⟩ := statements_of_text second (Nat.le_refl _)
  obtain ⟨r, hshallow⟩ := Option.isSome_iff_exists.1 hshallow
  obtain ⟨whole, hwhole, hr⟩ := Option.bind_eq_some_iff.1 hshallow
  obtain rfl : Script.ofText (first ++ ";" ++ second) = whole :=
    Option.some.inj ((Script.parse_of_small hboth).symm.trans hwhole)
  rw [hparse, hjoined] at hr
  have hne : Script.statements second ≠ [] := by
    intro hnil
    rw [hparse₂, hnil] at hroot
    exact hroot rfl
  obtain ⟨v, m₁, m₂, hown, hlog, hnext⟩ := shallow_in_turn hne hs₂.head_piped hr
  -- none of the three goes too deep, so evaluation comes to the same
  have hr := evalShallow_below (Nat.le_refl _) _ _ _ hr
  have hown := evalShallow_below (Nat.le_refl _) _ _ _ hown
  have hnext := evalShallow_below (Nat.le_refl _) _ _ _ hnext
  -- what the second adds, it adds in a run of its own as well
  obtain ⟨y₁, hy₁, hown'⟩ := (adds_evalWithin _ _ _).exists_yield hown
  cases hy₁
  rw [outcome_logError] at hlog
  cases hlog
  obtain ⟨y₂, rfl, hnext'⟩ := (adds_evalWithin _ _ _).exists_yield hnext
  let mid : Session σ := { s with context := y₁.context, dice := y₁.dice }
  let y : Yield σ Value := ⟨y₂.result, y₂.context, y₂.dice,
    y₁.lines ++ y₁.result.complaint.toArray ++ y₂.lines, y₂.requests ++ y₁.requests⟩
  have heval : eval s.engine (Script.ofText (first ++ ";" ++ second)).root s.start =
      some (y.onto #[] []) := by
    rw [hparse, hjoined]
    refine hr.trans ?_
    simp [y, Yield.onto]
  have heval₁ : eval s.engine (Script.ofText first).root s.start = some (y₁.onto #[] []) := by
    rw [hparse₁]
    exact hown' #[] []
  have heval₂ : eval mid.engine (Script.ofText second).root mid.start = some (y₂.onto #[] []) := by
    rw [hparse₂]
    exact hnext' #[] []
  have hrun := run_of_yield hwhole heval
  have hrun₁ := run_of_yield hfront heval₁
  have hrun₂ := run_of_yield hbehind heval₂
  refine ⟨_, _, _, _, _, hrun, hrun₁, hrun₂, rfl, ?_, ?_⟩
  · simp [y]
  · simp [y]

/-- A session with some dice laid out. -/
def table : Session (List Integer) where
  id := 1
  engine := ⟨.standard, .queue, 1⟩
  context := .empty
  dice := [4, 2, 3]

/-- The first script rolls, then fails, which is logged; the second rolls too and uses what the
first one stored. -/
theorem a_roll_and_its_use_run_in_turn :
    ¬ EndsInBar (scanned "x = 2d6; x.lost") ∧
      ¬ Cursor.Spills (scanned "x = 2d6; x.lost") (scanned "x + (1d6 | 7)") ∧
      table.StaysShallow ("x = 2d6; x.lost" ++ ";" ++ "x + (1d6 | 7)") ∧
      table.RunsInTurn "x = 2d6; x.lost" "x + (1d6 | 7)" := by
  have hbar : ¬ EndsInBar (scanned "x = 2d6; x.lost") := by decide +kernel
  have hspills : ¬ Cursor.Spills (scanned "x = 2d6; x.lost") (scanned "x + (1d6 | 7)") := by
    decide +kernel
  have hshallow : table.StaysShallow ("x = 2d6; x.lost" ++ ";" ++ "x + (1d6 | 7)") := by
    decide +kernel
  have hkind : (Script.ofText "x + (1d6 | 7)").root.kind ≠ Expr.empty.kind := by decide +kernel
  exact ⟨hbar, hspills, hshallow, joined_scripts_run_in_turn table (by decide)
    (Script.parse_of_small (by decide)) (Script.parse_of_small (by decide)) (by decide +kernel)
    (by decide +kernel) (fun h => hkind (congrArg Expr.kind h)) hbar hspills hshallow⟩

/-- What can be seen of scripts that run in turn. -/
theorem seen_of_runsInTurn {s : Session σ} {first second : String} (h : s.RunsInTurn first second) :
    (s.run (first ++ ";" ++ second)).map (fun r => (r.1.value.text, r.1.log)) =
      (s.run first).bind fun r₁ => (r₁.2.run second).map fun r₂ =>
        (r₂.1.value.text, r₁.1.log ++ r₁.1.value.complaint ++ r₂.1.log) := by
  obtain ⟨output, output₁, output₂, mid, last, hrun, hrun₁, hrun₂, hvalue, -, hlog⟩ := h
  simp only [hrun, hrun₁, Option.map_some, Option.bind_some, hrun₂, hvalue, hlog]

/-- Two scripts without mistakes, of which the first does not end in a bar, and which do not run in
turn at the table all the same. -/
def ReachesAcross (first second : String) : Prop :=
  (Script.parse first).map Script.mistakes = some [] ∧
    (Script.parse second).map Script.mistakes = some [] ∧
    (∀ t ∈ (scanned first).getLast?, t.kind ≠ .bar) ∧
    (Script.parse second).map Script.root ≠ some .empty ∧
    table.StaysShallow (first ++ ";" ++ second) ∧ ¬ table.RunsInTurn first second

/-- A bar waits for the next statement behind empty ones too, and a parenthesis may be closed only
behind the semicolon. That a script does not end in a bar is not enough. -/
theorem a_bar_or_a_parenthesis_reaches_across :
    ReachesAcross "1 | ;" "2" ∧
      ReachesAcross "(() => \x7b(\x7d)" "() => \x7b) => \x7b\x7d\x7d" := by
  have hempty : ∀ {script : Option Script},
      script.map (fun s => s.root.kind) ≠ some Expr.empty.kind →
      script.map Script.root ≠ some .empty := by
    intro script hkind h
    obtain ⟨s, rfl, hs⟩ := Option.map_eq_some_iff.1 h
    exact hkind (congrArg some (congrArg Expr.kind hs))
  refine ⟨?bar, ?parenthesis⟩
  case bar =>
    exact ⟨by decide +kernel, by decide +kernel, by decide +kernel, hempty (by decide +kernel),
      by decide +kernel, fun h => absurd (seen_of_runsInTurn h) (by decide +kernel)⟩
  case parenthesis =>
    exact ⟨by decide +kernel, by decide +kernel, by decide +kernel, hempty (by decide +kernel),
      by decide +kernel, fun h => absurd (seen_of_runsInTurn h) (by decide +kernel)⟩

end Session

end DiceScript
