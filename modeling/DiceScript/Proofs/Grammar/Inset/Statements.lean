import DiceScript.Proofs.Grammar.Inset.Terms
import DiceScript.Proofs.Grammar.Statements

/-!
Operations and statements read inside a larger text as they read alone, and with them the grammar as
a whole.
-/

namespace DiceScript

open Reader Attempt Grammar Operators

namespace Inset

variable {i : Inset} {read : Goal → Reader Expr} {pre guard : Progress → Prop}

/-! ## Operators -/

/-- A table of operators that no end of a statement is in. Behind an operator an operand begins, and
what an operator makes of its operands is no mistake. -/
structure Proper (join? : Join) : Prop where
  telling {kind : TokenKind} {join : Expr → Expr → Expr} : join? kind = some join → Telling kind
  opens {kind : TokenKind} {join : Expr → Expr → Expr} : join? kind = some join →
    kind = .dollar ∨ Cursor.opensOperand kind = true
  completed {kind : TokenKind} {join : Expr → Expr → Expr} : join? kind = some join →
    ∀ left right, Completed (join left right)

theorem chainFrom_mirrors {operand : Reader Expr} {join? : Join} (hjoin : Proper join?)
    (hoperand : i.Mirrors (fun p => p.cursor.BeginsOperand) Always Ended operand operand)
    (n n' : Nat) (hn : n ≤ n') (left : Expr) :
    i.Mirrors (Ended left) guard Ended (chainFrom operand join? n left)
      (chainFrom operand join? n' left) := by
  induction n generalizing n' left guard with
  | zero => exact ⟨nofun, nofun⟩
  | succ n ih =>
    obtain ⟨n', rfl⟩ : ∃ k, n' = k + 1 := ⟨n' - 1, by omega⟩
    have hnone : ∀ kind, ¬ Telling kind → join? kind = none := by
      intro kind hkind
      cases hj : join? kind with
      | none => rfl
      | some join => exact absurd (hjoin.telling hj) hkind
    simp only [chainFrom]
    refine .peek_bind (fun kind => ?_) ?_
    · cases hj : join? kind with
      | none => exact .pure fun _ hp _ => hp.1
      | some join =>
        have htelling := hjoin.telling hj
        refine .advance_bind (fun p hp => hp.2) ⟨htelling.1, htelling.2.2⟩ ?_
        refine .bind (hoperand.of_pre fun q hq => ?_) fun right => ?_
        · obtain ⟨p, ⟨hleft, -⟩, hkind, hcursor⟩ := hq
          rw [hcursor]
          exact hleft.2.advance hkind htelling.1 (hjoin.opens hj)
        · exact (ih n' (by omega) (join left right)).of_pre fun q hq =>
            ⟨hjoin.completed hj left right, hq.2⟩
    · rw [hnone .finish (by decide), hnone .semicolon (by decide)]
      exact .pure fun _ hp _ => hp.1

theorem chain_mirrors {first operand : Reader Expr} {join? : Join} (hjoin : Proper join?)
    (hfirst : i.Mirrors pre Always Ended first first)
    (hoperand : i.Mirrors (fun p => p.cursor.BeginsOperand) Always Ended operand operand) :
    i.Mirrors pre guard Ended (chain first operand join?) (chain first operand join?) := by
  refine .bind hfirst fun left => .remaining_bind fun n n' hn => ?_
  exact chainFrom_mirrors hjoin hoperand _ _ (Nat.succ_le_succ hn) left

/-- The tables of all levels of precedence. -/
def tables : List Join :=
  [disjunction?, conjunction?, getBonus?, equality?, relational?, shift?, additive?,
    multiplicative?]

theorem scaled_completed (op : BinaryOp) (left right : Expr) :
    Completed (scaled op left right) := by
  unfold scaled
  split <;> rfl

theorem proper_of_mem {join? : Join} (h : join? ∈ tables) : Proper join? := by
  simp only [tables, List.mem_cons, List.not_mem_nil, or_false] at h
  rcases h with rfl | rfl | rfl | rfl | rfl | rfl | rfl | rfl
  all_goals
    constructor
    · intro kind join hj
      cases kind <;> cases hj <;> decide
    · intro kind join hj
      cases kind <;> cases hj <;> decide
    · intro kind join hj left right
      cases kind <;> cases hj <;> first | rfl | exact scaled_completed _ left right

theorem unary?_telling {kind : TokenKind} {apply : Expr → Expr} (h : unary? kind = some apply) :
    Telling kind ∧ Cursor.opensOperand kind = true ∧ ∀ operand, Completed (apply operand) := by
  cases kind <;> cases h <;> exact ⟨by decide, by decide, fun _ => rfl⟩

theorem assignment?_telling {kind : TokenKind} {op : AssignOp} (h : assignment? kind = some op) :
    Telling kind ∧ Cursor.opensConditional kind = true := by
  cases kind <;> cases h <;> decide

theorem unary_mirrors (h : i.ReadsAlike read) :
    i.Mirrors (fun p => p.cursor.BeginsOperand) guard Ended (unary read) (unary read) := by
  refine .peek_bind (fun kind => ?_) ?_
  · cases hunary : unary? kind with
    | some apply =>
      obtain ⟨htelling, hopens, hcompleted⟩ := unary?_telling hunary
      refine .advance_bind (fun p hp => hp.2) ⟨htelling.1, htelling.2.2⟩ ?_
      refine .bind (h.goal nofun fun q hq => ?_) fun operand => .pure fun _ hq _ => ?_
      · exact (hq.behind htelling.1).beginsOperand hopens
      · exact ⟨hcompleted operand, hq.2⟩
    | none =>
      dsimp only
      split
      · rename_i hdollar
        exact .advance_bind (fun p hp => hp.2.trans hdollar) (by decide) (.settle (bonus_mirrors h))
      · exact suffixed_mirrors h fun _ hp => hp.1
  · exact suffixed_mirrors h fun _ hp => hp.1

theorem pair_mirrors (h : i.ReadsAlike read) :
    i.Mirrors (fun p => p.cursor.BeginsOperand) guard Ended (pair read) (pair read) := by
  refine .bind (unary_mirrors h) fun key => .setting_bind fun pairs => ?_
  refine .peek_bind (fun kind => ?_) ?_
  · dsimp only
    split
    · rename_i hcolon
      have hkind : kind = .colon := by simpa using (Bool.and_eq_true_iff.1 hcolon).2
      refine .advance_bind (fun p hp => hp.2.trans hkind) (by decide) ?_
      refine .bind (h.goal nofun fun q hq => ?_) fun value => .pure fun _ hq _ => ⟨rfl, hq.2⟩
      exact (hq.behind (by decide)).beginsOperand rfl
    · exact .pure fun _ hp _ => hp.1
  · simp only [reduceCtorEq, decide_false, Bool.and_false, Bool.false_eq_true, if_false]
    exact .pure fun _ hp _ => hp.1

theorem product_mirrors (h : i.ReadsAlike read) :
    i.Mirrors (fun p => p.cursor.BeginsOperand) guard Ended (product read) (product read) :=
  chain_mirrors (proper_of_mem (by simp [tables])) (pair_mirrors h) (pair_mirrors h)

theorem sum_mirrors (h : i.ReadsAlike read) :
    i.Mirrors (fun p => p.cursor.BeginsOperand) guard Ended (sum read) (sum read) :=
  chain_mirrors (proper_of_mem (by simp [tables])) (product_mirrors h) (product_mirrors h)

theorem arrayOperation_mirrors (h : i.ReadsAlike read) :
    i.Mirrors (fun p => p.cursor.BeginsOperand) guard Ended (arrayOperation read)
      (arrayOperation read) :=
  chain_mirrors (proper_of_mem (by simp [tables])) (sum_mirrors h) (sum_mirrors h)

theorem relation_mirrors (h : i.ReadsAlike read) :
    i.Mirrors (fun p => p.cursor.BeginsOperand) guard Ended (relation read) (relation read) :=
  chain_mirrors (proper_of_mem (by simp [tables])) (arrayOperation_mirrors h)
    (arrayOperation_mirrors h)

theorem equality_mirrors (h : i.ReadsAlike read) :
    i.Mirrors (fun p => p.cursor.BeginsOperand) guard Ended (equality read) (equality read) :=
  chain_mirrors (proper_of_mem (by simp [tables])) (relation_mirrors h) (relation_mirrors h)

theorem askedType_mirrors (h : i.ReadsAlike read) :
    i.Mirrors (fun p => p.cursor.BeginsOperand) guard Ended (askedType read) (askedType read) := by
  refine .bind bareWord?_mirrors fun word => ?_
  cases word with
  | some word => exact .pure fun _ hq _ => ⟨rfl, hq⟩
  | none => exact equality_mirrors h

theorem bonusOfStat_mirrors (h : i.ReadsAlike read) :
    i.Mirrors (fun p => p.cursor.BeginsOperand) guard Ended (bonusOfStat read) (bonusOfStat read) :=
  chain_mirrors (proper_of_mem (by simp [tables])) (equality_mirrors h) (askedType_mirrors h)

theorem conjunction_mirrors (h : i.ReadsAlike read) :
    i.Mirrors (fun p => p.cursor.BeginsOperand) guard Ended (conjunction read) (conjunction read) :=
  chain_mirrors (proper_of_mem (by simp [tables])) (bonusOfStat_mirrors h) (bonusOfStat_mirrors h)

theorem disjunction_mirrors (h : i.ReadsAlike read) :
    i.Mirrors (fun p => p.cursor.BeginsOperand) guard Ended (disjunction read) (disjunction read) :=
  chain_mirrors (proper_of_mem (by simp [tables])) (conjunction_mirrors h) (conjunction_mirrors h)

/-! ## Conditionals -/

theorem rest_advance {c : Cursor} (h : c.rest ≠ []) : c.advance.rest = c.rest.tail := by
  obtain ⟨token, rest, hrest⟩ := List.exists_cons_of_ne_nil h
  rw [Cursor.advance, hrest]
  rfl

theorem isIfCall_eq (c : Cursor) :
    isIfCall c.rest = (decide (c.kind = .openParen) &&
      ((Cursor.groupAt? c.rest).filter (·.followedBy .openCurly)).isNone) := by
  unfold isIfCall
  cases hrest : c.rest with
  | nil => simp [Cursor.kind_eq, hrest]
  | cons token rest =>
    rw [kind_of_rest hrest]
    cases Cursor.groupAt? (token :: rest) with
    | none => rfl
    | some g => by_cases hfollow : g.followedBy .openCurly = true <;> simp [hfollow]

theorem isIfCall_move {c c' : Cursor} (hbeside : i.Beside c c') (hc : i.Arrived c)
    (hbegins : c.BeginsConditional) (hkind : c.kind = .ifWord) :
    isIfCall c'.rest.tail = isIfCall c.rest.tail := by
  have hrest := Cursor.rest_ne_nil_of_kind hkind (by decide)
  have hbeside' := hbeside.advance hrest
  have hc' : i.Arrived c.advance := Cursor.advance_outside hc (.inl (by rw [hkind]; decide))
  have hrest' : c'.rest ≠ [] := by
    rw [hbeside.rest]
    simp [hrest]
  rw [← rest_advance hrest, ← rest_advance hrest', isIfCall_eq, isIfCall_eq,
    decide_eq_decide.2 (hbeside'.kind_eq_iff (by decide) (by decide))]
  by_cases hparen : c.advance.kind = .openParen
  · rw [hbeside'.filter_groupAt? hc' (by decide) fun _ => hbegins.looksPast hkind hparen,
      Option.isNone_map]
  · simp [hparen]

theorem branchesFrom_mirrors (h : i.ReadsAlike read) (n n' : Nat) (hn : n ≤ n') :
    i.MirrorsTry (fun p => p.cursor.BeginsOperand) guard (fun _ q => q.cursor.EndsOperand)
      (branchesFrom read n) (branchesFrom read n') := by
  induction n generalizing n' guard with
  | zero => exact ⟨nofun, nofun⟩
  | succ n ih =>
    obtain ⟨n', rfl⟩ : ∃ k, n' = k + 1 := ⟨n' - 1, by omega⟩
    simp only [branchesFrom]
    refine .lift_bind (h.goal nofun fun _ hp => hp) fun condition => ?_
    refine .bind (block_mirrors h _ fun _ hq => hq.2.not_arrow) fun body => ?_
    refine .lift_bind (.consumeIf (by decide)) fun more => ?_
    cases more with
    | false => exact .pure fun _ hq _ => hq.2
    | true =>
      refine .lift_bind (.consumeIf (by decide)) fun chained => ?_
      cases chained with
      | true =>
        refine .bind ((ih n' (by omega)).of_pre fun q hq => ?_) fun _ => .pure fun _ hq _ => hq
        obtain ⟨p, hp, hkind, hcursor⟩ := hq
        rw [hcursor]
        exact (hp.behind (by decide)).else_if hkind
      | false =>
        refine .bind (block_mirrors h _ fun _ hq => ?_) fun _ => .pure fun _ hq _ => hq.2
        exact (Consumed.behind hq (by decide)).not_arrow (by decide)

theorem choice_mirrors (h : i.ReadsAlike read)
    (hpre : ∀ p, pre p → p.cursor.kind = .ifWord ∧ isIfCall p.cursor.rest.tail = false) :
    i.MirrorsTry pre guard Ended (choice read) (choice read) := by
  refine .lift_advance_bind (fun p hp => (hpre p hp).1) (by decide) ?_
  refine .lift_remaining_bind fun n n' hn => ?_
  refine .bind ((branchesFrom_mirrors h _ _ (Nat.succ_le_succ hn)).of_pre fun q hq => ?_)
    fun _ => .pure fun _ hq _ => ⟨rfl, hq⟩
  -- a parenthesis behind the `if` is closed in front of a block
  refine .inr ⟨hq.behind (by decide), fun hparen hnone => ?_⟩
  obtain ⟨p, hp, -, hcursor⟩ := hq
  obtain ⟨hkind, hcall⟩ := hpre p hp
  rw [← rest_advance (Cursor.rest_ne_nil_of_kind hkind (by decide)), ← hcursor, isIfCall_eq,
    hparen, hnone] at hcall
  cases hcall

theorem ternary_mirrors (h : i.ReadsAlike read) (test : Expr)
    (hpre : ∀ p, pre p → p.cursor.BeginsConditional) :
    i.MirrorsTry pre guard Ended (ternary read test) (ternary read test) := by
  refine .lift_bind (.withoutPairs (h.goal nofun hpre)) fun yes => ?_
  refine .bind (.expect _ (by decide)) fun _ => ?_
  exact .lift_bind (h.goal nofun fun _ hq => hq.begins rfl) fun no =>
    .pure fun _ hq _ => ⟨rfl, hq.2⟩

variable (read) in
/-- A conditional that does not begin with branches: a test, and the values to choose from if a
question mark follows. -/
def testing : Reader Expr := do
  let test ← disjunction read
  if ← consumeIf .question then settle (ternary read test) else return test

theorem testing_mirrors (h : i.ReadsAlike read) :
    i.Mirrors (fun p => p.cursor.BeginsOperand) guard Ended (testing read) (testing read) := by
  refine .bind (disjunction_mirrors h) fun test => .bind (.consumeIf (by decide)) fun asked => ?_
  cases asked with
  | true => exact .settle (ternary_mirrors h test fun _ hq => hq.begins rfl)
  | false => exact .pure fun _ hq _ => hq

theorem conditional_mirrors (h : i.ReadsAlike read) :
    i.Mirrors (fun p => p.cursor.BeginsConditional) guard Ended (conditional read)
      (conditional read) := by
  refine .here_bind fun c c' hbeside => ?_
  have hown : i.Mirrors (fun p => p.cursor.BeginsConditional ∧ p.cursor = c) guard Ended
      (if decide (c.kind = .ifWord) && !isIfCall c.rest.tail then settle (choice read)
        else testing read)
      (if decide (c.kind = .ifWord) && !isIfCall c.rest.tail then settle (choice read)
        else testing read) := by
    split
    · rename_i hif
      refine .settle (choice_mirrors h fun p hp => ?_)
      rw [hp.2]
      simpa using hif
    · exact (testing_mirrors h).of_pre fun p hp => hp.1.beginsOperand
  refine hown.congr_right fun p harrived hp => ?_
  obtain ⟨hbegins, hcursor⟩ := hp
  rw [hcursor] at harrived hbegins
  have hif : c'.kind = .ifWord ↔ c.kind = .ifWord :=
    hbeside.kind_eq_iff (by decide) (by decide)
  by_cases hkind : c.kind = .ifWord
  · simp only [hif.2 hkind, hkind, isIfCall_move hbeside harrived hbegins hkind]
    rfl
  · simp only [hif, hkind, decide_false, Bool.false_and, Bool.false_eq_true, if_false]
    rfl

/-! ## Statements -/

theorem loop_mirrors (h : i.ReadsAlike read) (hpre : ∀ p, pre p → p.cursor.kind = .forWord) :
    i.MirrorsTry pre guard Ended (loop read) (loop read) := by
  refine .lift_advance_bind hpre (by decide) (.lift_here_bind fun c c' hbeside => ?_)
  cases hrest : c.rest with
  | nil => exact .fail _
  | cons token rest =>
    rw [hbeside.rest_cons hrest]
    simp only [i.move_kind, i.move_text]
    split
    · rename_i hkind
      refine .lift_advance_bind (fun p hp => ?_) (by decide : TokenKind.identifier ≠ .finish ∧ _)
        (.bind (.expect _ (by decide)) fun _ => ?_)
      · rw [hp.2, kind_of_rest hrest, hkind]
      · refine .lift_bind (.withPairs (h.goal nofun fun _ hq => hq.begins rfl)) fun iterable => ?_
        refine .bind (.expect _ (by decide)) fun _ => ?_
        refine .bind (block_mirrors h _ fun q hq => ?_) fun _ => .pure fun _ hq _ => ⟨rfl, hq.2⟩
        exact (hq.behind (by decide)).not_arrow (by decide)
    · exact .fail _

theorem assignTo_mirrors (target : Expr) (op : AssignOp) (c c' : Cursor) (value : Expr) :
    i.Mirrors (Ended value) guard Ended (assignTo target op c value)
      (assignTo target op c' value) := by
  cases target with
  | var name => exact .pure fun _ hp _ => ⟨rfl, hp.2⟩
  | index container position => exact .pure fun _ hp _ => ⟨rfl, hp.2⟩
  | _ => exact .mistakeAt _ _

variable (read) in
/-- A statement that is no loop: what is assigned to is read first, and it is the whole statement if
no operator follows. -/
def assigning : Reader Expr := do
  let target ← conditional read
  let cursor ← here
  match assignment? cursor.kind with
  | none => return target
  | some op =>
    advance
    assignTo target op cursor (← read .statement)

theorem assigning_mirrors (h : i.ReadsAlike read) :
    i.Mirrors (fun p => p.cursor.BeginsConditional) guard Ended (assigning read)
      (assigning read) := by
  refine .bind (conditional_mirrors h) fun target => .here_bind fun c c' hbeside => ?_
  cases hown : assignment? c.kind with
  | some op =>
    obtain ⟨htelling, hopens⟩ := assignment?_telling hown
    rw [(hbeside.kind_eq_iff htelling.1 htelling.2.1).2 rfl, hown]
    refine .advance_bind (fun p hp => by rw [hp.2]) ⟨htelling.1, htelling.2.2⟩ ?_
    exact .bind (h.goal nofun fun _ hq => hq.begins hopens) fun value =>
      assignTo_mirrors target op c c' value
  | none =>
    have hwhole : assignment? c'.kind = none := by
      rcases hbeside.kind_eq_or with hkind | ⟨-, hkind⟩
      · rw [hkind, hown]
      · rw [hkind]
        rfl
    rw [hwhole]
    exact .pure fun _ hp _ => hp.1

theorem statement_mirrors (h : i.ReadsAlike read) :
    i.Mirrors (fun p => p.cursor.BeginsConditional) guard Ended (statement read)
      (statement read) := by
  refine .peek_bind (fun kind => ?_) ?_
  · split
    · rename_i hfor
      exact .settle (loop_mirrors h fun p hp => hp.2.trans hfor)
    · exact (assigning_mirrors h).of_pre fun _ hp => hp.1
  · simp only [reduceCtorEq, if_false]
    exact (assigning_mirrors h).of_pre fun _ hp => hp.1

theorem wholeStatement_mirrors (h : i.ReadsAlike read) (terminator : Option TokenKind) :
    i.Mirrors (fun p => p.cursor.BeginsConditional) guard Ended (wholeStatement read terminator)
      (wholeStatement read terminator) := by
  refine .bind (statement_mirrors h) fun e => .peek_bind (fun kind => ?_) ?_
  · split
    · exact .pure fun _ hq _ => hq.1
    -- more tokens follow than the statement can use, which has been noted or is noted now
    · cases he : e.isError with
      | true =>
        simp only [if_true]
        refine .of_never (fun s p a q hx => ?_) fun s p a q hp hx _ _ => ?_
        · cases hx
          exact Nat.le_refl _
        · have hcompleted : e.isError = false := hp.1.1
          rw [he] at hcompleted
          cases hcompleted
      | false =>
        simp only [Bool.false_eq_true, if_false]
        refine .of_noting fun s p a q hx => ?_
        cases hx
        simp
  · exact .pure fun _ hq _ => hq.1

/-- The expression, if there is one, is no mistake. -/
def CompletedIfAny (found : Option Expr) : Prop := ∀ e, found = some e → Completed e

/-- What a turn has read so far is no mistake, and where another one follows, a statement may
begin. -/
def TurnRead : Turn → Progress → Prop
  | .last result, _ => CompletedIfAny result
  | .again result _, q => q.cursor.BeginsConditional ∧ CompletedIfAny result

theorem completed_followedBy (piped : Bool) {e : Expr} (he : Completed e) (result : Option Expr) :
    CompletedIfAny (some (followedBy piped e result)) := by
  intro next hnext
  cases hnext
  unfold followedBy
  split
  · exact he
  · split <;> rfl

/-- A turn that does not come to the end of the text is the same in the larger text. -/
theorem turn_mirrors (h : i.ReadsAlike read) (terminator : Option TokenKind) (piped : Bool)
    {result : Option Expr} (hguard : ∀ q, guard q → q.cursor.rest ≠ []) :
    i.Mirrors (fun p => p.cursor.BeginsConditional ∧ CompletedIfAny result) guard TurnRead
      (turn read terminator result piped) (turn read terminator result piped) := by
  -- a turn at the end of the text stays there
  have hlast : ∀ {pre : Progress → Prop} {result : Option Expr} {y : Reader Turn},
      i.Mirrors (fun p => pre p ∧ p.cursor.rest = []) guard TurnRead (pure (Turn.last result))
        y := by
    intro pre result y
    refine .of_never (fun s p a q hx => ?_) fun s p a q hp hx _ hq => ?_
    · cases hx
      exact Nat.le_refl _
    · cases hx
      exact hguard p hq hp.2
  refine .peek_bind (fun kind => ?_) hlast
  split
  · exact .pure fun _ hp _ => hp.1.2
  · split
    · rename_i hsemicolon
      refine .advance_bind (fun p hp => hp.2.trans hsemicolon) (by decide) (.pure fun q hq _ => ?_)
      refine ⟨hq.begins rfl, ?_⟩
      obtain ⟨p, ⟨⟨-, hresult⟩, -⟩, -⟩ := hq
      exact hresult
    · refine .bind ((wholeStatement_mirrors h terminator).of_pre fun _ hp => hp.1.1) fun e => ?_
      -- what separates the statement from the next one is passed
      have hagain : ∀ {kind : TokenKind} {next : Bool}, Cursor.opensConditional kind = true →
          kind ≠ .finish ∧ kind ≠ .openCurly →
          i.Mirrors (fun p => Ended e p ∧ p.cursor.kind = kind) guard TurnRead
            (do advance; return .again (some (followedBy piped e result)) next)
            (do advance; return .again (some (followedBy piped e result)) next) := by
        intro kind next hopens hkind
        refine .advance_bind (fun p hp => hp.2) hkind (.pure fun q hq _ => ⟨hq.begins hopens, ?_⟩)
        obtain ⟨p, ⟨hended, -⟩, -⟩ := hq
        exact completed_followedBy piped hended.1 result
      refine .peek_bind (fun kind => ?_) hlast
      split
      · exact hagain rfl (by decide)
      · exact hagain rfl (by decide)
      · exact .pure fun _ hq _ => completed_followedBy piped hq.1.1 result

/-- At the end of the text there are no more statements. -/
theorem statementsFrom_of_nil {terminator : Option TokenKind} {n : Nat}
    {result next : Option Expr} {piped : Bool} {s : Setting} {p q : Progress}
    (hnil : p.cursor.rest = [])
    (hx : outcome (statementsFrom read terminator n result piped) s p = some (next, q)) :
    q = p := by
  cases n with
  | zero => cases hx
  | succ n =>
    have hends : Ends terminator p.cursor.kind := by
      left
      rw [Cursor.kind_eq, hnil]
      rfl
    rw [outcome_statementsFrom_succ, turn_of_ends hends] at hx
    cases hx
    rfl

theorem statementsFrom_mirrors (h : i.ReadsAlike read) (terminator : Option TokenKind) (n n' : Nat)
    (hn : n ≤ n') (piped : Bool) (result : Option Expr)
    (hguard : ∀ q, guard q → q.cursor.rest ≠ []) :
    i.Mirrors (fun p => p.cursor.BeginsConditional ∧ CompletedIfAny result) guard
      (fun found _ => CompletedIfAny found) (statementsFrom read terminator n result piped)
      (statementsFrom read terminator n' result piped) := by
  induction n generalizing n' piped result with
  | zero => exact ⟨nofun, nofun⟩
  | succ n ih =>
    obtain ⟨n', rfl⟩ : ∃ k, n' = k + 1 := ⟨n' - 1, by omega⟩
    simp only [statementsFrom]
    have hturn : i.Mirrors (fun p => p.cursor.BeginsConditional ∧ CompletedIfAny result)
        (fun q => q.cursor.rest ≠ []) TurnRead (turn read terminator result piped)
        (turn read terminator result piped) := turn_mirrors h terminator piped fun _ hq => hq
    refine hturn.bind_of ?_ ?_
    -- where the statements do not come to the end, the turn before them did not either
    · intro t s q b r hx _ hr hnil
      cases t with
      | last result =>
        cases hx
        exact hguard _ hr hnil
      | again result piped =>
        rw [statementsFrom_of_nil hnil hx] at hr
        exact hguard _ hr hnil
    · intro t
      cases t with
      | last result => exact .pure fun _ hq _ => hq
      | again result piped => exact ih n' (by omega) piped result

theorem sequence_mirrors (h : i.ReadsAlike read) (terminator : Option TokenKind) :
    i.Mirrors (fun p => p.cursor.BeginsConditional) (fun q => q.cursor.rest ≠ [])
      (fun e _ => Completed e) (sequence read terminator) (sequence read terminator) := by
  refine .remaining_bind fun n n' hn => ?_
  have hstatements : i.Mirrors (fun p => p.cursor.BeginsConditional) (fun q => q.cursor.rest ≠ [])
      (fun found _ => CompletedIfAny found) (statementsFrom read terminator (n + 1) none false)
      (statementsFrom read terminator (n' + 1) none false) :=
    (statementsFrom_mirrors h terminator _ _ (Nat.succ_le_succ hn) false none fun _ hq => hq).of_pre
      fun p hp => ⟨hp, nofun⟩
  refine hstatements.bind_of ?_ fun result => .pure fun _ hq _ => ?_
  · intro result s q b r hx _ hr
    cases hx
    exact hr
  · cases result with
    | none => rfl
    | some e => exact hq e rfl

/-! ## The whole grammar -/

/-- The induction is on the number of constructs inside each other. -/
theorem readWithin_alike_inside (n : Nat) : i.ReadsAlike (readWithin n) := by
  induction n with
  | zero => exact fun goal => ⟨nofun, nofun⟩
  | succ n ih =>
    intro goal
    cases goal with
    | sequence terminator => exact sequence_mirrors ih terminator
    | statement => exact statement_mirrors ih
    | conditional => exact conditional_mirrors ih
    | disjunction => exact disjunction_mirrors ih
    | pair => exact pair_mirrors ih
    | unary => exact unary_mirrors ih

end Inset

end DiceScript
