import DiceScript.Proofs.Grammar.Terms

/-!
Operations and statements read forward, and with them the grammar as a whole: as many constructs
inside each other as there are tokens ahead are always enough.
-/

namespace DiceScript.Grammar

open Reader Attempt Operators

variable {read read' : Goal → Reader Expr} {r : Nat}

/-! ## Chains -/

theorem chainFrom_alike {operand operand' : Reader Expr} {join? : Join}
    (hoperand : Alike r operand operand') (hjoin : join? .finish = none) (n k : Nat) (left : Expr)
    {s : Setting} {p : Progress} (hn : p.remaining < n) (hk : p.remaining < k)
    (hp : p.remaining < r + 1) :
    AgreeAt (chainFrom operand join? n left) (chainFrom operand' join? k left) s p := by
  induction n generalizing p k left with
  | zero => exact absurd hn (Nat.not_lt_zero _)
  | succ n ih =>
    obtain ⟨k, rfl⟩ : ∃ i, k = i + 1 := ⟨k - 1, by omega⟩
    refine .peek_bind ?_
    cases hj : join? p.cursor.kind with
    | none => exact .pure left
    | some join =>
      have hlt := remaining_advanced_lt_of_found join? hjoin hj
      -- the operator has been read, so what is left is within the bound of the operand
      refine .advance_bind (.bind (hoperand s _ (by omega)) fun right t _ ht => ?_)
      exact ih k _ (by omega) (by omega) (by omega)

theorem chain_alike {first first' operand operand' : Reader Expr} {join? : Join}
    (hfirst : Alike (r + 1) first first') (hoperand : Alike (r + 1) operand operand')
    (hjoin : join? .finish = none) :
    Alike (r + 1) (chain first operand join?) (chain first' operand' join?) := by
  intro s p hp
  refine .bind (hfirst s p hp) fun left q _ hq => .remaining_bind ?_
  exact chainFrom_alike (hoperand.mono (Nat.le_succ r)) hjoin _ _ left (Nat.lt_succ_self _)
    (Nat.lt_succ_self _) (by omega)

/-! ## Levels of precedence -/

theorem unary_alike (h : ∀ goal, Alike r (read goal) (read' goal)) :
    Alike (r + 1) (unary read) (unary read') := by
  intro s p hp
  refine .peek_bind ?_
  cases hunary : unary? p.cursor.kind with
  | some apply =>
    have hlt := remaining_advanced_lt_of_found unary? rfl hunary
    exact .advance_bind (.bind (h _ s _ (by omega)) fun _ _ _ _ => .pure _)
  | none =>
    dsimp only
    split
    · exact .bind .advance fun _ q _ hq => .settle (bonus_alike h s q (by omega))
    · exact suffixed_alike h s p hp

theorem pair_alike (h : ∀ goal, Alike r (read goal) (read' goal)) :
    Alike (r + 1) (pair read) (pair read') := by
  intro s p hp
  refine .bind (unary_alike h s p hp) fun key q _ hq => ?_
  refine .bind ⟨s, q, rfl, rfl, .refl _⟩ fun setting t ht _ => ?_
  cases ht
  refine .peek_bind ?_
  split
  · rename_i hcolon
    have hkind : q.cursor.kind = .colon := by simp_all
    have hlt := remaining_advanced_lt_of_kind hkind (by decide)
    exact .advance_bind (.bind (h _ s _ (by omega)) fun _ _ _ _ => .pure _)
  · exact .pure key

theorem product_alike (h : ∀ goal, Alike r (read goal) (read' goal)) :
    Alike (r + 1) (product read) (product read') :=
  chain_alike (pair_alike h) (pair_alike h) rfl

theorem sum_alike (h : ∀ goal, Alike r (read goal) (read' goal)) :
    Alike (r + 1) (sum read) (sum read') :=
  chain_alike (product_alike h) (product_alike h) rfl

theorem arrayOperation_alike (h : ∀ goal, Alike r (read goal) (read' goal)) :
    Alike (r + 1) (arrayOperation read) (arrayOperation read') :=
  chain_alike (sum_alike h) (sum_alike h) rfl

theorem relation_alike (h : ∀ goal, Alike r (read goal) (read' goal)) :
    Alike (r + 1) (relation read) (relation read') :=
  chain_alike (arrayOperation_alike h) (arrayOperation_alike h) rfl

theorem equality_alike (h : ∀ goal, Alike r (read goal) (read' goal)) :
    Alike (r + 1) (equality read) (equality read') :=
  chain_alike (relation_alike h) (relation_alike h) rfl

theorem askedType_alike (h : ∀ goal, Alike r (read goal) (read' goal)) :
    Alike (r + 1) (askedType read) (askedType read') := by
  intro s p hp
  refine .bind (bareWord?_alike (r + 1) s p hp) fun word q _ hq => ?_
  cases word with
  | some word => exact .pure _
  | none => exact equality_alike h s q (by omega)

theorem bonusOfStat_alike (h : ∀ goal, Alike r (read goal) (read' goal)) :
    Alike (r + 1) (bonusOfStat read) (bonusOfStat read') :=
  chain_alike (equality_alike h) (askedType_alike h) rfl

theorem conjunction_alike (h : ∀ goal, Alike r (read goal) (read' goal)) :
    Alike (r + 1) (conjunction read) (conjunction read') :=
  chain_alike (bonusOfStat_alike h) (bonusOfStat_alike h) rfl

theorem disjunction_alike (h : ∀ goal, Alike r (read goal) (read' goal)) :
    Alike (r + 1) (disjunction read) (disjunction read') :=
  chain_alike (conjunction_alike h) (conjunction_alike h) rfl

/-! ## Conditionals -/

theorem branchesFrom_alike (h : ∀ goal, Alike r (read goal) (read' goal)) (n : Nat) {s : Setting}
    {p : Progress} (hn : p.remaining < n) (hp : p.remaining < r) :
    AgreeAt (branchesFrom read n).run (branchesFrom read' n).run s p := by
  induction n generalizing p with
  | zero => exact absurd hn (Nat.not_lt_zero _)
  | succ n ih =>
    refine .lift_bind (h _ s p hp) fun condition q₁ _ h₁ => ?_
    refine .attempt_bind (block_alike h _ s q₁ (by omega)) fun body q₂ _ h₂ => ?_
    refine .lift_bind (.consumeIf _) fun another q₃ hq₃ h₃ => ?_
    cases another with
    | false => exact .attempt_pure _
    | true =>
      have hlt := consumeIf_true hq₃ (by decide)
      -- an `else` has been read, and perhaps an `if`
      refine .lift_bind (.consumeIf _) fun condition q₄ _ h₄ => ?_
      cases condition with
      | false =>
        exact .attempt_bind (block_alike h _ s q₄ (by omega)) fun _ _ _ _ => .attempt_pure _
      | true => exact .attempt_bind (ih (by omega) (by omega)) fun _ _ _ _ => .attempt_pure _

theorem choice_alike (h : ∀ goal, Alike r (read goal) (read' goal)) {s : Setting} {p : Progress}
    (hnext : p.advanced.remaining < r) :
    AgreeAt (choice read).run (choice read').run s p := by
  refine .lift_advance_bind ?_
  refine .lift_bind ⟨_, p.advanced, rfl, rfl, .refl _⟩ fun n t ht _ => ?_
  cases ht
  exact .attempt_bind (branchesFrom_alike h _ (Nat.lt_succ_self _) hnext)
    fun _ _ _ _ => .attempt_pure _

theorem ternary_alike (h : ∀ goal, Alike r (read goal) (read' goal)) (test : Expr) :
    Alike r (ternary read test).run (ternary read' test).run := by
  intro s p hp
  refine .lift_bind (.withoutPairs (h _ _ p hp)) fun yes q₁ _ h₁ => ?_
  refine .attempt_bind (.expect _ _) fun _ q₂ _ h₂ => ?_
  exact .lift_bind (h _ s q₂ (by omega)) fun _ _ _ _ => .attempt_pure _

theorem conditional_alike (h : ∀ goal, Alike r (read goal) (read' goal)) :
    Alike (r + 1) (conditional read) (conditional read') := by
  intro s p hp
  refine .here_bind ?_
  split
  · rename_i hif
    have hkind : p.cursor.kind = .ifWord := by simp_all
    have hlt := remaining_advanced_lt_of_kind hkind (by decide)
    exact .settle (choice_alike h (by omega))
  · refine .bind (disjunction_alike h s p hp) fun test q _ hq => ?_
    refine .bind (.consumeIf _) fun asked t ht hle => ?_
    cases asked with
    | false => exact .pure test
    | true =>
      have hlt := consumeIf_true ht (by decide)
      exact .settle (ternary_alike h test s t (by omega))

/-! ## Statements -/

theorem loop_alike (h : ∀ goal, Alike r (read goal) (read' goal)) {s : Setting} {p : Progress}
    (hnext : p.advanced.remaining < r) : AgreeAt (loop read).run (loop read').run s p := by
  refine .lift_advance_bind (.lift_here_bind ?_)
  split
  · split
    · refine .lift_bind .advance fun _ q₂ _ h₂ => ?_
      refine .attempt_bind (.expect _ _) fun _ q₃ _ h₃ => ?_
      refine .lift_bind (.withPairs (h _ _ q₃ (by omega))) fun iterable q₄ _ h₄ => ?_
      refine .attempt_bind (.expect _ _) fun _ q₅ _ h₅ => ?_
      exact .attempt_bind (block_alike h _ s q₅ (by omega)) fun _ _ _ _ => .attempt_pure _
    · exact .fail _
  · exact .fail _

theorem assignTo_agree (target : Expr) (op : AssignOp) (cursor : Cursor) (value : Expr)
    {s : Setting} {p : Progress} :
    AgreeAt (assignTo target op cursor value) (assignTo target op cursor value) s p := by
  unfold assignTo
  split
  · exact .pure _
  · exact .pure _
  · exact .mistakeAt _ _

theorem statement_alike (h : ∀ goal, Alike r (read goal) (read' goal)) :
    Alike (r + 1) (statement read) (statement read') := by
  intro s p hp
  refine .peek_bind ?_
  split
  · rename_i hfor
    have hlt := remaining_advanced_lt_of_kind hfor (by decide)
    exact .settle (loop_alike h (by omega))
  · refine .bind (conditional_alike h s p hp) fun target q _ hq => .here_bind ?_
    cases hassign : assignment? q.cursor.kind with
    | none => exact .pure target
    | some op =>
      have hlt := remaining_advanced_lt_of_found assignment? rfl hassign
      exact .advance_bind (.bind (h _ s _ (by omega)) fun value _ _ _ => assignTo_agree _ _ _ _)

theorem wholeStatement_alike (h : ∀ goal, Alike r (read goal) (read' goal))
    (terminator : Option TokenKind) :
    Alike (r + 1) (wholeStatement read terminator) (wholeStatement read' terminator) := by
  intro s p hp
  refine .bind (statement_alike h s p hp) fun e q _ _ => .peek_bind ?_
  -- with or without a mistake, what is left of the statement is skipped
  have hskip : ∀ (e : Expr) (q : Progress),
      AgreeAt (do
          let cursor ← here
          moveTo (cursor.skip (skipLength terminator 0 cursor.rest))
          return e)
        (do
          let cursor ← here
          moveTo (cursor.skip (skipLength terminator 0 cursor.rest))
          return e) s q :=
    fun e q => .here_bind (.bind (.moveTo (Cursor.ahead_skip _ _)) fun _ _ _ _ => .pure e)
  split
  · exact .pure e
  · dsimp only
    split
    · exact hskip e q
    · exact .bind (.mistake _) fun node t _ _ => hskip _ t

/-! ## Sequences -/

theorem turn_alike (h : ∀ goal, Alike r (read goal) (read' goal)) (terminator : Option TokenKind)
    (result : Option Expr) (piped : Bool) :
    Alike (r + 1) (turn read terminator result piped) (turn read' terminator result piped) := by
  intro s p hp
  refine .peek_bind ?_
  split
  · exact .pure _
  · split
    · exact .advance_pure _
    · refine .bind (wholeStatement_alike h terminator s p hp) fun e q _ _ => .peek_bind ?_
      split
      · exact .advance_pure _
      · exact .advance_pure _
      · exact .pure _

/-- A turn that another one follows has read a token. -/
theorem turn_again (h : ∀ goal, Alike r (read goal) (read goal)) {terminator : Option TokenKind}
    {result next : Option Expr} {piped nextPiped : Bool} {s : Setting} {p q : Progress}
    (hp : p.remaining < r + 1)
    (hq : outcome (turn read terminator result piped) s p = some (.again next nextPiped, q)) :
    q.remaining < p.remaining := by
  simp only [turn, Reader.outcome_bind, outcome_peek, Option.bind_some] at hq
  split at hq
  · cases hq
  · split at hq
    · rename_i hsemicolon
      cases hq
      exact remaining_advanced_lt_of_kind hsemicolon (by decide)
    · obtain ⟨e, t, ht, -, hahead⟩ := wholeStatement_alike h terminator s p hp
      have hle : t.remaining ≤ p.remaining := hahead.length_le
      simp only [Reader.outcome_bind, ht, Option.bind_some, outcome_peek] at hq
      split at hq
      · rename_i hkind
        cases hq
        have hlt := remaining_advanced_lt_of_kind hkind (by decide)
        exact Nat.lt_of_lt_of_le hlt hle
      · rename_i hkind
        cases hq
        have hlt := remaining_advanced_lt_of_kind hkind (by decide)
        exact Nat.lt_of_lt_of_le hlt hle
      · cases hq

theorem statementsFrom_alike (h : ∀ goal, Alike r (read goal) (read' goal))
    (terminator : Option TokenKind) (n : Nat) (result : Option Expr) (piped : Bool) {s : Setting}
    {p : Progress} (hn : p.remaining < n) (hp : p.remaining < r + 1) :
    AgreeAt (statementsFrom read terminator n result piped)
      (statementsFrom read' terminator n result piped) s p := by
  induction n generalizing p result piped with
  | zero => exact absurd hn (Nat.not_lt_zero _)
  | succ n ih =>
    refine .bind (turn_alike h terminator result piped s p hp) fun next q hq hle => ?_
    cases next with
    | last result => exact .pure result
    | again result piped =>
      -- the next turn has fewer tokens ahead, and that is what bounds the turns
      have hlt := turn_again (fun goal s p hp => (h goal s p hp).left) hp hq
      exact ih result piped (by omega) (by omega)

theorem sequence_alike (h : ∀ goal, Alike r (read goal) (read' goal))
    (terminator : Option TokenKind) :
    Alike (r + 1) (sequence read terminator) (sequence read' terminator) := by
  intro s p hp
  refine .remaining_bind ?_
  exact .bind (statementsFrom_alike h terminator _ none false (Nat.lt_succ_self _) hp)
    fun _ _ _ _ => .pure _

/-! ## The whole grammar -/

theorem rule_alike (h : ∀ goal, Alike r (read goal) (read' goal)) (goal : Goal) :
    Alike (r + 1) (rule read goal) (rule read' goal) := by
  cases goal with
  | sequence terminator => exact sequence_alike h terminator
  | statement => exact statement_alike h
  | conditional => exact conditional_alike h
  | disjunction => exact disjunction_alike h
  | pair => exact pair_alike h
  | unary => exact unary_alike h

/-- More constructs inside each other than there are tokens ahead change nothing. -/
theorem readWithin_alike {n k : Nat} (hn : r ≤ n) (hk : r ≤ k) (goal : Goal) :
    Alike r (readWithin n goal) (readWithin k goal) := by
  induction r generalizing n k goal with
  | zero => exact fun s p hp => absurd hp (Nat.not_lt_zero _)
  | succ r ih =>
    obtain ⟨n, rfl⟩ : ∃ i, n = i + 1 := ⟨n - 1, by omega⟩
    obtain ⟨k, rfl⟩ : ∃ i, k = i + 1 := ⟨k - 1, by omega⟩
    -- what stands inside is read where fewer tokens are ahead
    exact rule_alike (fun goal => ih (by omega) (by omega) goal) goal

end DiceScript.Grammar
