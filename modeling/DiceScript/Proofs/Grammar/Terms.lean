import DiceScript.Proofs.Grammar.Forward

/-!
Terms read forward: if the grammar does so where fewer than `r` tokens are ahead, then a leaf, a
suffix or a bonus does so where at most `r` are.
-/

namespace DiceScript.Grammar

open Reader Attempt

variable {read read' : Goal → Reader Expr} {r : Nat}

/-! ## Lists and blocks -/

theorem itemsFrom_alike (h : ∀ goal, Alike r (read goal) (read' goal)) (closing : TokenKind)
    (m : Mistake) (n : Nat) {s : Setting} {p : Progress} (hn : p.remaining < n)
    (hp : p.remaining < r) :
    AgreeAt (itemsFrom read closing m n).run (itemsFrom read' closing m n).run s p := by
  induction n generalizing p with
  | zero => exact absurd hn (Nat.not_lt_zero _)
  | succ n ih =>
    simp only [itemsFrom]
    refine .lift_bind (.withPairs (h _ _ p hp)) fun item q _ hq => .lift_peek_bind ?_
    split
    · rename_i hcomma
      have hlt := remaining_advanced_lt_of_kind hcomma (by decide)
      refine .lift_advance_bind (.attempt_bind (ih ?_ ?_) fun _ _ _ _ => .attempt_pure _)
      · omega
      · omega
    · split
      · exact .lift_bind .advance fun _ _ _ _ => .attempt_pure _
      · exact .fail m

theorem items_alike (h : ∀ goal, Alike r (read goal) (read' goal)) (closing : TokenKind)
    (m : Mistake) : Alike r (items read closing m).run (items read' closing m).run := by
  intro s p hp
  unfold items
  refine .lift_bind (.consumeIf closing) fun empty q _ hq => ?_
  cases empty with
  | true => exact .attempt_pure _
  -- the bound is one more than the tokens ahead, so it is never what ends the list
  | false =>
    refine .lift_remaining_bind ?_
    exact itemsFrom_alike h closing m (q.remaining + 1) (Nat.lt_succ_self _) (by omega)

theorem arguments_alike (h : ∀ goal, Alike r (read goal) (read' goal)) :
    Alike (r + 1) (arguments read).run (arguments read').run := by
  intro s p hp
  refine .attempt_bind (.expect _ _) fun _ q hq _ => ?_
  have hlt := expect_ok hq (by decide)
  exact items_alike h _ _ s q (by omega)

/-- The arguments of a call take a token, if they can be read. -/
theorem arguments_ok (h : ∀ goal, Alike r (read goal) (read goal)) {s : Setting} {p q : Progress}
    {args : List Expr} (hp : p.remaining < r + 1)
    (hq : outcome (arguments read).run s p = some (.ok args, q)) : q.remaining < p.remaining := by
  obtain ⟨hkind, hitems⟩ := expect_bind_ok hq
  have hlt := remaining_advanced_lt_of_kind hkind (by decide)
  have hle := (items_alike h .closeParen .argumentList s p.advanced (by omega)).remaining_le hitems
  omega

theorem block_alike (h : ∀ goal, Alike r (read goal) (read' goal)) (place : Place) :
    Alike (r + 1) (block read place).run (block read' place).run := by
  intro s p hp
  refine .attempt_bind (.expect _ _) fun _ q hq _ => ?_
  have hlt := expect_ok hq (by decide)
  refine .lift_bind (.withPairs (h _ _ q (by omega))) fun body _ _ _ => ?_
  exact .attempt_bind (.expect _ _) fun _ _ _ _ => .attempt_pure body

/-! ## Functions -/

theorem functionBody_alike (params : List String) (r : Nat) :
    Alike r (functionBody params).run (functionBody params).run := by
  intro s p _
  refine .lift_here_bind ?_
  split
  · exact .fail _
  · split
    · exact .failAt _ _
    · refine .lift_bind ⟨s, p, rfl, rfl, .refl _⟩ fun _ q hq _ => ?_
      cases hq
      exact .lift_bind (.moveTo (Cursor.ahead_skip _ _)) fun _ _ _ _ => .attempt_pure _

theorem functionAfter_alike (g : Cursor.Group) (r : Nat) :
    Alike r (functionAfter g).run (functionAfter g).run := by
  intro s p hp
  refine .lift_here_bind ?_
  split
  · exact .failAt _ _
  · split
    · exact .failAt _ _
    · refine .lift_bind (.moveTo (Cursor.ahead_skip _ _)) fun _ q _ hq => ?_
      exact functionBody_alike _ r s q (by omega)

theorem parenthesized_alike (h : ∀ goal, Alike r (read goal) (read' goal)) {s : Setting}
    {p : Progress} (hnext : p.advanced.remaining < r) :
    AgreeAt (parenthesized read).run (parenthesized read').run s p := by
  refine .lift_here_bind ?_
  split
  · exact functionAfter_alike _ _ s p (Nat.lt_succ_self _)
  · refine .lift_advance_bind ?_
    refine .lift_bind (.withPairs (h _ _ p.advanced hnext)) fun inner _ _ _ => ?_
    exact .attempt_bind (.expect _ _) fun _ _ _ _ => .attempt_pure inner

/-! ## Leaves and suffixes -/

theorem namedCall_alike (h : ∀ goal, Alike r (read goal) (read' goal)) (name : String) :
    Alike (r + 1) (namedCall read name).run (namedCall read' name).run :=
  fun s p hp => .attempt_bind (arguments_alike h s p hp) fun _ _ _ _ => .attempt_pure _

theorem event_alike (h : ∀ goal, Alike r (read goal) (read' goal)) :
    Alike r (event read).run (event read').run := by
  intro s p hp
  refine .lift_bind (.withPairs (h _ _ p hp)) fun argument _ _ _ => ?_
  exact .attempt_bind (.expect _ _) fun _ _ _ _ => .attempt_pure _

theorem leafAt_alike (h : ∀ goal, Alike r (read goal) (read' goal)) (cursor : Cursor)
    (token : Token) {s : Setting} {p : Progress} (hp : p.remaining < r + 1)
    (hnext : p.advanced.remaining < r) :
    AgreeAt (leafAt read cursor token) (leafAt read' cursor token) s p := by
  unfold leafAt
  split
  · refine .bind .advance fun _ _ _ _ => ?_
    split
    · exact .pure _
    · exact .mistakeAt _ _
  · exact .advance_pure _
  · exact .advance_pure _
  · refine .bind .advance fun _ _ _ _ => ?_
    split
    · exact .pure _
    · exact .mistakeAt _ _
    · exact .mistakeAt _ _
  · refine .bind .advance fun _ q _ hq => .peek_bind ?_
    split
    · exact .settle (namedCall_alike h _ s q (by omega))
    · exact .pure _
  · exact .bind .advance fun _ q _ hq => .settle (namedCall_alike h _ s q (by omega))
  · exact .settle (parenthesized_alike h hnext)
  · exact .bind .advance fun _ q _ hq => .settle (functionBody_alike _ (r + 1) s q (by omega))
  · exact .settle (block_alike h _ s p hp)
  · refine .advance_bind (.settle ?_)
    exact .attempt_bind (items_alike h _ _ s _ hnext) fun _ _ _ _ => .attempt_pure _
  · exact .advance_pure _
  · exact .advance_bind (.settle (event_alike h s _ hnext))
  · exact .bind .advance fun _ _ _ _ => .mistakeAt _ _
  · exact .mistakeAt _ _

theorem leaf_alike (h : ∀ goal, Alike r (read goal) (read' goal)) :
    Alike (r + 1) (leaf read) (leaf read') := by
  intro s p hp
  refine .here_bind ?_
  cases hrest : p.cursor.rest with
  | nil => exact .mistakeAt _ _
  | cons token rest =>
    have hlt := remaining_advanced_lt (p := p) (by simp [hrest])
    exact leafAt_alike h _ _ hp (by omega)

theorem indexOf_alike (h : ∀ goal, Alike r (read goal) (read' goal)) (container : Expr) :
    Alike r (indexOf read container).run (indexOf read' container).run := by
  intro s p hp
  refine .lift_here_bind ?_
  dsimp only
  split
  · refine .lift_bind .advance fun _ _ _ _ => .attempt_bind (.attempt_pure _) fun _ _ _ _ => ?_
    exact .attempt_bind (.expect _ _) fun _ _ _ _ => .attempt_pure _
  · refine .lift_bind (.withPairs (h _ _ p hp)) fun _ _ _ _ => ?_
    exact .attempt_bind (.expect _ _) fun _ _ _ _ => .attempt_pure _

theorem memberOf_alike (h : ∀ goal, Alike r (read goal) (read' goal)) (target : Expr) :
    Alike (r + 1) (memberOf read target).run (memberOf read' target).run := by
  intro s p hp
  refine .lift_here_bind ?_
  split
  · split
    · refine .lift_bind .advance fun _ q _ hq => .lift_peek_bind ?_
      split
      · exact .attempt_bind (arguments_alike h s q (by omega)) fun _ _ _ _ => .attempt_pure _
      · exact .attempt_pure _
    · exact .fail _
  · exact .fail _

theorem suffix?_alike (h : ∀ goal, Alike r (read goal) (read' goal)) (e : Expr) :
    Alike (r + 1) (suffix? read e).run (suffix? read' e).run := by
  intro s p hp
  refine .lift_peek_bind ?_
  split
  · rename_i hkind
    have hlt := remaining_advanced_lt_of_kind hkind (by decide)
    refine .lift_advance_bind ?_
    exact .attempt_bind (indexOf_alike h e s _ (by omega)) fun _ _ _ _ => .attempt_pure _
  · refine .lift_bind .advance fun _ q _ hq => ?_
    exact .attempt_bind (memberOf_alike h e s q (by omega)) fun _ _ _ _ => .attempt_pure _
  · split
    · exact .attempt_bind (arguments_alike h s p hp) fun _ _ _ _ => .attempt_pure _
    · exact .attempt_pure _
  · exact .attempt_pure _

/-- A suffix that has been read took a token. -/
theorem suffix?_some (h : ∀ goal, Alike r (read goal) (read goal)) {e next : Expr} {s : Setting}
    {p q : Progress} (hp : p.remaining < r + 1)
    (hq : outcome (suffix? read e).run s p = some (.ok (some next), q)) :
    q.remaining < p.remaining := by
  -- the bracket or the dot is a token, and what is read behind it is no step back
  have hbehind : ∀ {x : Attempt Expr}, AgreeAt x.run x.run s p.advanced →
      outcome (do return some (← x) : Attempt (Option Expr)).run s p.advanced =
        some (.ok (some next), q) → q.remaining ≤ p.advanced.remaining := by
    intro x hx hout
    have hafter : AgreeAt (do return some (← x) : Attempt (Option Expr)).run
        (do return some (← x) : Attempt (Option Expr)).run s p.advanced :=
      .attempt_bind hx fun _ _ _ _ => .attempt_pure _
    exact hafter.remaining_le hout
  rw [suffix?, outcome_peek_bind] at hq
  split at hq
  · rename_i hkind
    have hlt := remaining_advanced_lt_of_kind hkind (by decide)
    have hle := hbehind (indexOf_alike h e s p.advanced (by omega)) hq
    omega
  · rename_i hkind
    have hlt := remaining_advanced_lt_of_kind hkind (by decide)
    have hle := hbehind (memberOf_alike h e s p.advanced (by omega)) hq
    omega
  · split at hq
    · obtain ⟨args, t, hargs, ht⟩ := Attempt.bind_ok hq
      cases ht
      exact arguments_ok h hp hargs
    · cases hq
  · cases hq

theorem suffixesFrom_alike (h : ∀ goal, Alike r (read goal) (read' goal)) (n : Nat) (e : Expr)
    {s : Setting} {p : Progress} (hn : p.remaining < n) (hp : p.remaining < r + 1) :
    AgreeAt (suffixesFrom read n e) (suffixesFrom read' n e) s p := by
  induction n generalizing p e with
  | zero => exact absurd hn (Nat.not_lt_zero _)
  | succ n ih =>
    simp only [suffixesFrom]
    refine .bind (suffix?_alike h e s p hp) fun result q hq hle => ?_
    split
    -- a suffix has been read, so fewer tokens are ahead of the next one
    · have hlt := suffix?_some (fun goal s p hp => (h goal s p hp).left) hp hq
      exact ih _ (by omega) (by omega)
    · exact .pure _
    · exact .pure _

theorem suffixed_alike (h : ∀ goal, Alike r (read goal) (read' goal)) :
    Alike (r + 1) (suffixed read) (suffixed read') := by
  intro s p hp
  refine .bind (leaf_alike h s p hp) fun e q _ hq => .remaining_bind ?_
  exact suffixesFrom_alike h _ e (Nat.lt_succ_self _) (by omega)

/-! ## Bonuses -/

theorem bareWord?_alike (r : Nat) : Alike r bareWord? bareWord? := by
  intro s p _
  refine .here_bind ?_
  split
  · dsimp only
    split
    · exact .advance_pure _
    · exact .pure _
  · exact .pure _

theorem bonusArgument_alike (h : ∀ goal, Alike r (read goal) (read' goal)) :
    Alike r (bonusArgument read) (bonusArgument read') := by
  intro s p hp
  refine .here_bind ?_
  dsimp only
  split
  · split
    · exact .advance_pure _
    · split
      · exact .advance_pure _
      · exact .withPairs (h _ _ p hp)
  · exact .withPairs (h _ _ p hp)

theorem bonusDetails_alike (h : ∀ goal, Alike r (read goal) (read' goal)) :
    Alike r (bonusDetails read).run (bonusDetails read').run := by
  intro s p hp
  -- however many details are given, a closing bracket comes after them
  have hend : ∀ (e : Expr) (q : Progress),
      AgreeAt (do expect .closeParen .bonusEnd; return e : Attempt Expr).run
        (do expect .closeParen .bonusEnd; return e : Attempt Expr).run s q :=
    fun e q => .attempt_bind (.expect _ _) fun _ _ _ _ => .attempt_pure e
  refine .lift_bind (bonusArgument_alike h s p hp) fun name q₁ _ h₁ => ?_
  refine .lift_bind (.consumeIf _) fun typed q₂ _ h₂ => ?_
  cases typed with
  | false => exact hend _ q₂
  | true =>
    refine .lift_bind (bonusArgument_alike h s q₂ (by omega)) fun type q₃ _ h₃ => ?_
    refine .lift_bind (.consumeIf _) fun valued q₄ _ h₄ => ?_
    cases valued with
    | false => exact hend _ q₄
    | true => exact .lift_bind (.withPairs (h _ _ q₄ (by omega))) fun value q₅ _ _ => hend _ q₅

theorem bonus_alike (h : ∀ goal, Alike r (read goal) (read' goal)) :
    Alike (r + 1) (bonus read).run (bonus read').run := by
  intro s p hp
  refine .lift_bind (bareWord?_alike (r + 1) s p hp) fun word q _ hq => ?_
  cases word with
  | some word => exact .attempt_pure _
  | none =>
    refine .lift_here_bind ?_
    cases hrest : q.cursor.rest with
    | nil => exact .fail _
    | cons token rest =>
      dsimp only
      split
      · exact .lift_bind .advance fun _ _ _ _ => .attempt_pure _
      · split
        · have hlt := remaining_advanced_lt (p := q) (by simp [hrest])
          exact .lift_advance_bind (bonusDetails_alike h s _ (by omega))
        · exact .fail _

end DiceScript.Grammar
