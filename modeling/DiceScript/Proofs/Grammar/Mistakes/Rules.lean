import DiceScript.Proofs.Grammar.Inset.Statements
import DiceScript.Proofs.Grammar.Mistakes
import DiceScript.Proofs.Grammar.Safety
import DiceScript.Proofs.Token.Dice

/-!
No mistake is lost while a script is read. Many constructs are dropped when they cannot be
completed, with the mistakes in them, but then another mistake takes their place. So a script has
mistakes exactly if its tree has a node of one.
-/

namespace DiceScript

namespace Grammar

open Reader Attempt Operators

variable {source : List Char} {tokens : List Token} {noted : List String}
  {read : Goal → Reader Expr}

/-! ## Lists and blocks -/

theorem itemsFrom_accounts (h : ∀ goal, Accounts source tokens [] (read goal) Expr.nodes)
    (closing : TokenKind) {m : Mistake} (hm : m.blamed? = none) (n : Nat) :
    AccountsTrying source tokens [] (itemsFrom read closing m n) Expr.nodesOfAll := by
  induction n with
  | zero =>
    intro s p r q _ _ hx
    cases hx
  | succ n ih =>
    refine .lift_bind (.withPairs (h .conditional)) fun item new hitem => ?_
    refine .lift_peek_bind fun kind => ?_
    split
    · exact .lift_advance_bind (.bind ih fun items new' hitems => .pure (hitem.append hitems))
    · split
      · refine .lift_advance_bind (.pure ?_)
        rw [← List.append_nil ([] ++ new)]
        exact hitem.append .nil
      · exact .fail m (.of_blamed hm)

theorem items_accounts (h : ∀ goal, Accounts source tokens [] (read goal) Expr.nodes)
    (closing : TokenKind) {m : Mistake} (hm : m.blamed? = none) :
    AccountsTrying source tokens [] (items read closing m) Expr.nodesOfAll := by
  refine .lift_consumeIf_bind fun found => ?_
  cases found with
  | true => exact .pure .nil
  | false => exact .lift_remaining_bind fun n => itemsFrom_accounts h closing hm _

theorem arguments_accounts (h : ∀ goal, Accounts source tokens [] (read goal) Expr.nodes) :
    AccountsTrying source tokens [] (arguments read) Expr.nodesOfAll :=
  .expect_bind (items_accounts h _ rfl)

theorem block_accounts (h : ∀ goal, Accounts source tokens [] (read goal) Expr.nodes)
    (place : Place) : AccountsTrying source tokens [] (block read place) Expr.nodes := by
  refine .expect_bind (.lift_bind (.withPairs (h _)) fun body new hbody => ?_)
  exact .expect_bind (.pure hbody)

/-! ## Functions -/

theorem functionBody_accounts {params : List String} (hparams : params = implicitParams ∨
      ∀ name ∈ params, ∃ token ∈ tokens, token.kind = .identifier ∧ token.text = name) :
    AccountsTrying source tokens [] (functionBody params) Expr.nodes := by
  refine .lift_here_bind fun c hc => ?_
  split
  · exact .fail _ (.of_blamed rfl)
  · rename_i hcurly
    cases hgroup : Cursor.groupAt? c.rest with
    | none => exact .failAt _ _ (.of_blamed rfl)
    | some g =>
      refine .lift_setting_bind fun s hs => ?_
      refine .lift_moveTo_bind (hc.ahead (Cursor.ahead_skip c _)) (.pure (.function ⟨hparams, ?_⟩))
      have hopening : g.opening.kind = .openCurly :=
        (Cursor.kind_of_groupAt? hgroup).symm.trans (not_not.1 hcurly)
      exact ⟨c.before.reverse, c.rest, g, hc.symm, hgroup, hopening, by rw [hs]⟩

/-- The names between the parentheses of a function are identifiers among its tokens. -/
theorem parameters?_named {nameNext dangling : Bool} {ts : List Token} {params : List String}
    (h : Cursor.parameters? nameNext ts = some (params, dangling)) :
    ∀ name ∈ params, ∃ token ∈ ts, token.kind = .identifier ∧ token.text = name := by
  induction ts generalizing nameNext params with
  | nil =>
    cases h
    exact nofun
  | cons token ts ih =>
    have hlater : ∀ {next : Bool} {names : List String},
        Cursor.parameters? next ts = some (names, dangling) → ∀ name ∈ names,
          ∃ t ∈ token :: ts, t.kind = .identifier ∧ t.text = name := by
      intro next names hnames name hname
      obtain ⟨t, ht, hfound⟩ := ih hnames name hname
      exact ⟨t, List.mem_cons_of_mem _ ht, hfound⟩
    unfold Cursor.parameters? at h
    split at h
    · rename_i hword
      obtain ⟨⟨names, flag⟩, hnames, heq⟩ := Option.map_eq_some_iff.1 h
      cases heq
      have hkind : token.kind = .identifier := by simpa using (Bool.and_eq_true_iff.1 hword).1
      intro name hname
      rcases List.mem_cons.1 hname with rfl | hname
      · exact ⟨token, List.mem_cons_self, hkind, rfl⟩
      · exact hlater hnames name hname
    · split at h
      · exact hlater h
      · cases h

theorem functionAfter_accounts {g : Cursor.Group} (hinside : ∀ t ∈ g.inside, t ∈ tokens) :
    AccountsTrying source tokens [] (functionAfter g) Expr.nodes := by
  refine .lift_here_bind fun c hc => ?_
  cases hparams : Cursor.parameters? true g.inside with
  | none => exact .failAt _ _ (.of_blamed rfl)
  | some found =>
    obtain ⟨params, dangling⟩ := found
    dsimp only
    split
    · exact .failAt _ _ (.of_blamed rfl)
    · refine .lift_moveTo_bind (hc.ahead (Cursor.ahead_skip c _)) ?_
      refine functionBody_accounts (.inr fun name hname => ?_)
      obtain ⟨token, htoken, hfound⟩ := parameters?_named hparams name hname
      exact ⟨token, hinside token htoken, hfound⟩

theorem parenthesized_accounts (h : ∀ goal, Accounts source tokens [] (read goal) Expr.nodes) :
    AccountsTrying source tokens [] (parenthesized read) Expr.nodes := by
  refine .lift_here_bind fun c hc => ?_
  cases hgroup : (Cursor.groupAt? c.rest).filter (·.followedBy .arrow) with
  | some g =>
    obtain ⟨hg, -⟩ := Option.filter_eq_some_iff.1 hgroup
    refine functionAfter_accounts fun t ht => ?_
    rw [← hc, Cursor.groupAt?_parts hg]
    simp [ht]
  | none =>
    refine .lift_advance_bind (.lift_bind (.withPairs (h _)) fun inner new hinner => ?_)
    exact .expect_bind (.pure hinner)

/-! ## Leaves and suffixes -/

theorem namedCall_accounts (h : ∀ goal, Accounts source tokens [] (read goal) Expr.nodes)
    (name : String) : AccountsTrying source tokens [] (namedCall read name) Expr.nodes :=
  .bind (arguments_accounts h) fun _ _ hargs => .pure (hargs.under rfl)

theorem event_accounts (h : ∀ goal, Accounts source tokens [] (read goal) Expr.nodes) :
    AccountsTrying source tokens [] (event read) Expr.nodes :=
  .lift_bind (.withPairs (h .conditional)) fun _ _ hargument =>
    .expect_bind (.pure (hargument.under rfl))

theorem leafAt_accounts (h : ∀ goal, Accounts source tokens [] (read goal) Expr.nodes)
    (c : Cursor) {token : Token} (htoken : token ∈ tokens) :
    Accounts source tokens [] (leafAt read c token) Expr.nodes := by
  unfold leafAt
  split
  · refine .advance_bind ?_
    split
    · exact .pure (.alone rfl)
    · exact .mistakeAt _ _ (.of_blamed rfl)
  · exact .advance_bind (.pure (.alone rfl))
  · exact .advance_bind (.pure (.alone rfl))
  · rename_i hkind
    refine .advance_bind ?_
    split
    · rename_i spec hread
      exact .pure (.diceLeaf ⟨token, htoken, hkind, hread⟩)
    · rename_i hread
      refine .mistakeAt _ _ fun failure hblamed => ?_
      cases hblamed
      exact ⟨token, htoken, hkind, hread⟩
    · rename_i hread
      refine .mistakeAt _ _ fun failure hblamed => ?_
      cases hblamed
      exact ⟨token, htoken, hkind, hread⟩
  · refine .advance_bind (.peek_bind fun kind => ?_)
    split
    · exact .settle (namedCall_accounts h _)
    · exact .pure (.alone rfl)
  · exact .advance_bind (.settle (namedCall_accounts h _))
  · exact .settle (parenthesized_accounts h)
  · exact .advance_bind (.settle (functionBody_accounts (.inl rfl)))
  · exact .settle (block_accounts h _)
  · refine .advance_bind (.settle ?_)
    exact .bind (items_accounts h _ rfl) fun _ _ hitems => .pure (hitems.under rfl)
  · exact .advance_bind (.pure (.alone rfl))
  · exact .advance_bind (.settle (event_accounts h))
  · exact .advance_bind (.mistakeAt _ _ (.of_blamed rfl))
  · exact .mistakeAt _ _ (.of_blamed rfl)

theorem leaf_accounts (h : ∀ goal, Accounts source tokens [] (read goal) Expr.nodes) :
    Accounts source tokens [] (leaf read) Expr.nodes := by
  refine .here_bind fun c hc => ?_
  cases hrest : c.rest with
  | nil => exact .mistakeAt _ _ (.of_blamed rfl)
  | cons token rest =>
    refine leafAt_accounts h c ?_
    rw [← hc, hrest]
    exact List.mem_append_right _ List.mem_cons_self

/-- An index, a member or a call has below it the expression that it follows. -/
theorem indexOf_accounts (h : ∀ goal, Accounts source tokens [] (read goal) Expr.nodes)
    {container : Expr} (hcontainer : Kept source tokens noted container.nodes) :
    AccountsTrying source tokens noted (indexOf read container) Expr.nodes := by
  refine .lift_here_bind fun c _ => ?_
  dsimp only
  split
  · refine .lift_advance_bind (.expect_bind (.pure ?_))
    have hmark : Kept source tokens [] [Expr.symbol c.kind.spelling] := .alone rfl
    have hboth := hcontainer.append hmark
    rw [List.append_nil] at hboth
    exact hboth.under rfl
  · refine .lift_bind (.withPairs (h .conditional)) fun index new hindex => ?_
    exact .expect_bind (.pure ((hcontainer.append hindex).under rfl))

theorem memberOf_accounts (h : ∀ goal, Accounts source tokens [] (read goal) Expr.nodes)
    {target : Expr} (htarget : Kept source tokens noted target.nodes) :
    AccountsTrying source tokens noted (memberOf read target) Expr.nodes := by
  refine .lift_here_bind fun c _ => ?_
  cases c.rest with
  | nil => exact .fail _ (.of_blamed rfl)
  | cons token rest =>
    dsimp only
    split
    · refine .lift_advance_bind (.lift_peek_bind fun kind => ?_)
      split
      · refine .bind (arguments_accounts h) fun args new hargs => ?_
        exact .pure ((htarget.append hargs).under rfl)
      · exact .pure (htarget.under rfl)
    · exact .fail _ (.of_blamed rfl)

theorem suffix?_accounts (h : ∀ goal, Accounts source tokens [] (read goal) Expr.nodes) {e : Expr}
    (he : Kept source tokens noted e.nodes) :
    AccountsTrying source tokens noted (suffix? read e) fun next => (next.getD e).nodes := by
  refine .lift_peek_bind fun kind => ?_
  split
  · exact .lift_advance_bind (.andThen (indexOf_accounts h he) fun _ _ hnext => .pure hnext)
  · exact .lift_advance_bind (.andThen (memberOf_accounts h he) fun _ _ hnext => .pure hnext)
  · split
    · refine .bind (arguments_accounts h) fun args new hargs => ?_
      exact .pure ((he.append hargs).under rfl)
    · exact .pure he
  · exact .pure he

theorem suffixesFrom_accounts (h : ∀ goal, Accounts source tokens [] (read goal) Expr.nodes)
    (n : Nat) {e : Expr} (he : Kept source tokens noted e.nodes) :
    Accounts source tokens noted (suffixesFrom read n e) Expr.nodes := by
  induction n generalizing noted e with
  | zero =>
    intro s p a q _ _ hx
    cases hx
  | succ n ih =>
    intro s p a q hs hp hx
    rw [suffixesFrom, Reader.outcome_bind] at hx
    obtain ⟨⟨r, t⟩, hr, hafter⟩ := Option.bind_eq_some_iff.1 hx
    obtain ⟨ht, new, hmistakes, hfair, hok, herror⟩ := suffix?_accounts h he s p r t hs hp hr
    rcases r with node | (_ | next)
    · cases hafter
      obtain ⟨message, hmem, rfl⟩ := herror _ rfl
      exact ⟨ht, new, hmistakes, hfair, .error hmem⟩
    · cases hafter
      exact ⟨ht, new, hmistakes, hfair, hok _ rfl⟩
    · obtain ⟨hq, new', hmistakes', hfair', hkept⟩ := ih (hok _ rfl) s t a q hs ht hafter
      refine ⟨hq, new ++ new', ?_, hfair.append hfair', ?_⟩
      · rw [hmistakes', hmistakes, List.append_assoc]
      · rwa [List.append_assoc] at hkept

theorem suffixed_accounts (h : ∀ goal, Accounts source tokens [] (read goal) Expr.nodes) :
    Accounts source tokens [] (suffixed read) Expr.nodes :=
  .bind (leaf_accounts h) fun _ _ he => .remaining_bind fun _ => suffixesFrom_accounts h _ he

/-! ## Bonuses -/

theorem bareWord?_accounts : Accounts source tokens [] bareWord? fun _ => [] := by
  refine .here_bind fun c _ => ?_
  cases c.rest with
  | nil => exact .pure .nil
  | cons token rest =>
    dsimp only
    split
    · exact .advance_bind (.pure .nil)
    · exact .pure .nil

theorem bonusArgument_accounts (h : ∀ goal, Accounts source tokens [] (read goal) Expr.nodes) :
    Accounts source tokens [] (bonusArgument read) Expr.nodes := by
  refine .here_bind fun c _ => ?_
  cases c.rest with
  | nil => exact .withPairs (h .conditional)
  | cons token rest =>
    dsimp only
    split
    · exact .advance_bind (.pure (.alone rfl))
    · split
      · exact .advance_bind (.pure (.alone rfl))
      · exact .withPairs (h .conditional)

theorem bonusDetails_accounts (h : ∀ goal, Accounts source tokens [] (read goal) Expr.nodes) :
    AccountsTrying source tokens [] (bonusDetails read) Expr.nodes := by
  refine .lift_bind (bonusArgument_accounts h) fun name new hname => ?_
  refine .lift_consumeIf_bind fun found => ?_
  cases found with
  | false =>
    refine .expect_bind (.pure (.under rfl ?_))
    simpa [Expr.nodesOfAny] using hname
  | true =>
    refine .lift_bind (bonusArgument_accounts h) fun type new' htype => ?_
    refine .lift_consumeIf_bind fun found => ?_
    cases found with
    | false =>
      refine .expect_bind (.pure (.under rfl ?_))
      simpa [Expr.nodesOfAny] using hname.append htype
    | true =>
      refine .lift_bind (.withPairs (h .conditional)) fun value new'' hvalue => ?_
      refine .expect_bind (.pure (.under rfl ?_))
      simpa [Expr.nodesOfAny] using hname.append (htype.append hvalue)

theorem bonus_accounts (h : ∀ goal, Accounts source tokens [] (read goal) Expr.nodes) :
    AccountsTrying source tokens [] (bonus read) Expr.nodes := by
  have hword : ∀ word, Kept source tokens [] (Expr.bonus (.text word) none none).nodes :=
    fun word => .under rfl (.alone rfl)
  refine .lift_bind bareWord?_accounts fun word new hnew => ?_
  rw [hnew.noted_eq_nil]
  cases word with
  | some word => exact .pure (hword word)
  | none =>
    refine .lift_here_bind fun c _ => ?_
    cases c.rest with
    | nil => exact .fail _ (.of_blamed rfl)
    | cons token rest =>
      dsimp only
      split
      · exact .lift_advance_bind (.pure (hword token.text))
      · split
        · exact .lift_advance_bind (bonusDetails_accounts h)
        · exact .fail _ (.of_blamed rfl)

/-! ## Operators -/

/-- An operator gives a node that tells nothing, with its operands below it. -/
theorem join_tells_nothing {join? : Join} (h : join? ∈ Inset.tables) {kind : TokenKind}
    {join : Expr → Expr → Expr} (hkind : join? kind = some join) (left right : Expr) :
    (join left right).tellsNothing = true ∧
      (join left right).nodes = join left right :: (left.nodes ++ right.nodes) := by
  simp only [Inset.tables, List.mem_cons, List.not_mem_nil, or_false] at h
  -- whether dice stand on the left of a product or not, the node has two operands
  have hscaled : ∀ op, (scaled op left right).tellsNothing = true ∧
      (scaled op left right).nodes = scaled op left right :: (left.nodes ++ right.nodes) := by
    intro op
    cases left <;> exact ⟨rfl, rfl⟩
  rcases h with rfl | rfl | rfl | rfl | rfl | rfl | rfl | rfl
  all_goals cases kind <;> cases hkind <;> first | exact ⟨rfl, rfl⟩ | exact hscaled _

theorem chainFrom_accounts {operand : Reader Expr} {join? : Join} (hjoin : join? ∈ Inset.tables)
    (hoperand : Accounts source tokens [] operand Expr.nodes) (n : Nat) {left : Expr}
    (hleft : Kept source tokens noted left.nodes) :
    Accounts source tokens noted (chainFrom operand join? n left) Expr.nodes := by
  induction n generalizing noted left with
  | zero =>
    intro s p a q _ _ hx
    cases hx
  | succ n ih =>
    refine .peek_bind fun kind => ?_
    cases hkind : join? kind with
    | none => exact .pure hleft
    | some join =>
      refine .advance_bind (.bind hoperand fun right new hright => ih ?_)
      obtain ⟨htells, hnodes⟩ := join_tells_nothing hjoin hkind left right
      rw [hnodes]
      exact (hleft.append hright).under htells

theorem chain_accounts {first operand : Reader Expr} {join? : Join} (hjoin : join? ∈ Inset.tables)
    (hfirst : Accounts source tokens [] first Expr.nodes)
    (hoperand : Accounts source tokens [] operand Expr.nodes) :
    Accounts source tokens [] (chain first operand join?) Expr.nodes :=
  .bind hfirst fun _ _ hleft => .remaining_bind fun _ => chainFrom_accounts hjoin hoperand _ hleft

theorem unary_accounts (h : ∀ goal, Accounts source tokens [] (read goal) Expr.nodes) :
    Accounts source tokens [] (unary read) Expr.nodes := by
  refine .peek_bind fun kind => ?_
  split
  · rename_i apply hunary
    refine .advance_bind (.bind (h .unary) fun operand new hoperand => .pure ?_)
    cases kind <;> cases hunary <;> exact hoperand.under rfl
  · split
    · exact .advance_bind (.settle (bonus_accounts h))
    · exact suffixed_accounts h

theorem pair_accounts (h : ∀ goal, Accounts source tokens [] (read goal) Expr.nodes) :
    Accounts source tokens [] (pair read) Expr.nodes := by
  refine .bind (unary_accounts h) fun key new hkey => .setting_bind fun s _ => ?_
  refine .peek_bind fun kind => ?_
  split
  · refine .advance_bind (.bind (h .pair) fun value new' hvalue => ?_)
    exact .pure ((hkey.append hvalue).under rfl)
  · exact .pure hkey

theorem product_accounts (h : ∀ goal, Accounts source tokens [] (read goal) Expr.nodes) :
    Accounts source tokens [] (product read) Expr.nodes :=
  chain_accounts (by simp [Inset.tables]) (pair_accounts h) (pair_accounts h)

theorem sum_accounts (h : ∀ goal, Accounts source tokens [] (read goal) Expr.nodes) :
    Accounts source tokens [] (sum read) Expr.nodes :=
  chain_accounts (by simp [Inset.tables]) (product_accounts h) (product_accounts h)

theorem arrayOperation_accounts (h : ∀ goal, Accounts source tokens [] (read goal) Expr.nodes) :
    Accounts source tokens [] (arrayOperation read) Expr.nodes :=
  chain_accounts (by simp [Inset.tables]) (sum_accounts h) (sum_accounts h)

theorem relation_accounts (h : ∀ goal, Accounts source tokens [] (read goal) Expr.nodes) :
    Accounts source tokens [] (relation read) Expr.nodes :=
  chain_accounts (by simp [Inset.tables]) (arrayOperation_accounts h) (arrayOperation_accounts h)

theorem equality_accounts (h : ∀ goal, Accounts source tokens [] (read goal) Expr.nodes) :
    Accounts source tokens [] (equality read) Expr.nodes :=
  chain_accounts (by simp [Inset.tables]) (relation_accounts h) (relation_accounts h)

theorem askedType_accounts (h : ∀ goal, Accounts source tokens [] (read goal) Expr.nodes) :
    Accounts source tokens [] (askedType read) Expr.nodes := by
  refine .bind bareWord?_accounts fun word new hnew => ?_
  rw [hnew.noted_eq_nil]
  cases word with
  | some word => exact .pure (.alone rfl)
  | none => exact equality_accounts h

theorem bonusOfStat_accounts (h : ∀ goal, Accounts source tokens [] (read goal) Expr.nodes) :
    Accounts source tokens [] (bonusOfStat read) Expr.nodes :=
  chain_accounts (by simp [Inset.tables]) (equality_accounts h) (askedType_accounts h)

theorem conjunction_accounts (h : ∀ goal, Accounts source tokens [] (read goal) Expr.nodes) :
    Accounts source tokens [] (conjunction read) Expr.nodes :=
  chain_accounts (by simp [Inset.tables]) (bonusOfStat_accounts h) (bonusOfStat_accounts h)

theorem disjunction_accounts (h : ∀ goal, Accounts source tokens [] (read goal) Expr.nodes) :
    Accounts source tokens [] (disjunction read) Expr.nodes :=
  chain_accounts (by simp [Inset.tables]) (conjunction_accounts h) (conjunction_accounts h)

/-! ## Conditionals -/

theorem branchesFrom_accounts (h : ∀ goal, Accounts source tokens [] (read goal) Expr.nodes)
    (n : Nat) : AccountsTrying source tokens [] (branchesFrom read n) Branches.nodes := by
  induction n with
  | zero =>
    intro s p r q _ _ hx
    cases hx
  | succ n ih =>
    refine .lift_bind (h .disjunction) fun condition new hcondition => ?_
    refine .bind (block_accounts h _) fun body new' hbody => ?_
    refine .lift_consumeIf_bind fun found => ?_
    cases found with
    | true =>
      refine .lift_consumeIf_bind fun found => ?_
      cases found with
      | true =>
        refine .bind ih fun rest new'' hrest => .pure ?_
        simpa [Branches.nodes] using hcondition.append (hbody.append hrest)
      | false =>
        refine .bind (block_accounts h _) fun other new'' hother => .pure ?_
        simpa [Branches.nodes] using hcondition.append (hbody.append hother)
    | false =>
      refine .pure ?_
      simpa [Branches.nodes] using hcondition.append hbody

theorem choice_accounts (h : ∀ goal, Accounts source tokens [] (read goal) Expr.nodes) :
    AccountsTrying source tokens [] (choice read) Expr.nodes := by
  refine .lift_advance_bind (.lift_remaining_bind fun n => ?_)
  exact .bind (branchesFrom_accounts h _) fun _ _ hbranches => .pure (hbranches.under rfl)

theorem ternary_accounts (h : ∀ goal, Accounts source tokens [] (read goal) Expr.nodes)
    {test : Expr} (htest : Kept source tokens noted test.nodes) :
    AccountsTrying source tokens noted (ternary read test) Expr.nodes := by
  refine .lift_bind (.withoutPairs (h .conditional)) fun yes new hyes => .expect_bind ?_
  refine .lift_bind (h .conditional) fun no new' hno => .pure (.under rfl ?_)
  rw [List.append_assoc]
  exact htest.append (hyes.append hno)

theorem conditional_accounts (h : ∀ goal, Accounts source tokens [] (read goal) Expr.nodes) :
    Accounts source tokens [] (conditional read) Expr.nodes := by
  refine .here_bind fun c _ => ?_
  split
  · exact .settle (choice_accounts h)
  · refine .bind (disjunction_accounts h) fun test new htest => .consumeIf_bind fun found => ?_
    cases found with
    | true => exact .settle (ternary_accounts h htest)
    | false => exact .pure htest

/-! ## Statements -/

theorem loop_accounts (h : ∀ goal, Accounts source tokens [] (read goal) Expr.nodes) :
    AccountsTrying source tokens [] (loop read) Expr.nodes := by
  refine .lift_advance_bind (.lift_here_bind fun c _ => ?_)
  cases c.rest with
  | nil => exact .fail _ (.of_blamed rfl)
  | cons token rest =>
    dsimp only
    split
    · refine .lift_advance_bind (.expect_bind ?_)
      refine .lift_bind (.withPairs (h .conditional)) fun iterable new hiterable => .expect_bind ?_
      refine .bind (block_accounts h _) fun body new' hbody => ?_
      exact .pure ((hiterable.append hbody).under rfl)
    · exact .fail _ (.of_blamed rfl)

/-- What cannot be assigned to is dropped with the value, and a mistake takes their place. -/
theorem assignTo_accounts {target value : Expr} {new : List String} (op : AssignOp) (c : Cursor)
    (htarget : Kept source tokens noted target.nodes)
    (hvalue : Kept source tokens new value.nodes) :
    Accounts source tokens (noted ++ new) (assignTo target op c value) Expr.nodes := by
  unfold assignTo
  split
  · rename_i name
    -- a name alone holds no mistake
    have hnoted : noted = [] := not_ne_iff.1 fun hne => htarget.messages_ne_nil hne rfl
    subst hnoted
    exact .pure (hvalue.under rfl)
  · exact .pure ((htarget.append hvalue).under rfl)
  · exact .mistakeAt _ _ (.of_blamed rfl)

theorem statement_accounts (h : ∀ goal, Accounts source tokens [] (read goal) Expr.nodes) :
    Accounts source tokens [] (statement read) Expr.nodes := by
  refine .peek_bind fun kind => ?_
  split
  · exact .settle (loop_accounts h)
  · refine .bind (conditional_accounts h) fun target new htarget => .here_bind fun c _ => ?_
    split
    · exact .pure htarget
    · rename_i op hop
      refine .advance_bind (.bind (h .statement) fun value new' hvalue => ?_)
      exact assignTo_accounts op c htarget hvalue

/-- What follows a statement and cannot be used is a mistake of its own, unless the statement is
one already. -/
theorem wholeStatement_accounts (h : ∀ goal, Accounts source tokens [] (read goal) Expr.nodes)
    (terminator : Option TokenKind) :
    Accounts source tokens [] (wholeStatement read terminator) Expr.nodes := by
  refine .bind (statement_accounts h) fun e new he => .peek_bind fun kind => ?_
  split
  · exact .pure he
  · have hskip : ∀ {whole : Expr} {all : List String}, Kept source tokens all whole.nodes →
        Accounts source tokens all
          (do
            let cursor ← here
            moveTo (cursor.skip (skipLength terminator 0 cursor.rest))
            return whole) Expr.nodes := by
      intro whole all hwhole
      refine .here_bind fun c hc => ?_
      exact .moveTo_bind (hc.ahead (Cursor.ahead_skip c _)) (.pure hwhole)
    dsimp only
    split
    · exact hskip he
    · refine .bind (.here_bind fun c _ => .mistakeAt c _ (.of_blamed rfl)) fun node new' hnode => ?_
      exact hskip ((he.append hnode).under rfl)

theorem followedBy_nodes (piped : Bool) {statement : Expr} {before : Option Expr}
    {new : List String} (hbefore : Kept source tokens noted (Expr.nodesOfAny before))
    (hstatement : Kept source tokens new statement.nodes) :
    Kept source tokens (noted ++ new) (followedBy piped statement before).nodes := by
  cases before with
  | none =>
    rw [hbefore.noted_eq_nil]
    exact hstatement
  | some first =>
    cases piped <;> exact (hbefore.append hstatement).under rfl

/-- The nodes of the statements after a turn. -/
def Turn.nodes : Turn → List Expr
  | .last result | .again result _ => Expr.nodesOfAny result

theorem turn_accounts (h : ∀ goal, Accounts source tokens [] (read goal) Expr.nodes)
    (terminator : Option TokenKind) (piped : Bool) {result : Option Expr}
    (hresult : Kept source tokens noted (Expr.nodesOfAny result)) :
    Accounts source tokens noted (turn read terminator result piped) Turn.nodes := by
  refine .peek_bind fun kind => ?_
  split
  · exact .pure hresult
  · split
    · exact .advance_bind (.pure hresult)
    · refine .bind (wholeStatement_accounts h terminator) fun e new he => ?_
      have hnext := followedBy_nodes piped hresult he
      refine .peek_bind fun kind => ?_
      split
      · exact .advance_bind (.pure hnext)
      · exact .advance_bind (.pure hnext)
      · exact .pure hnext

theorem statementsFrom_accounts (h : ∀ goal, Accounts source tokens [] (read goal) Expr.nodes)
    (terminator : Option TokenKind) (n : Nat) (piped : Bool) {result : Option Expr}
    (hresult : Kept source tokens noted (Expr.nodesOfAny result)) :
    Accounts source tokens noted (statementsFrom read terminator n result piped)
      Expr.nodesOfAny := by
  induction n generalizing noted piped result with
  | zero =>
    intro s p a q _ _ hx
    cases hx
  | succ n ih =>
    refine .andThen (turn_accounts h terminator piped hresult) fun next all hnext => ?_
    cases next with
    | last result => exact .pure hnext
    | again result piped => exact ih piped hnext

theorem sequence_accounts (h : ∀ goal, Accounts source tokens [] (read goal) Expr.nodes)
    (terminator : Option TokenKind) :
    Accounts source tokens [] (sequence read terminator) Expr.nodes := by
  refine .remaining_bind fun n => ?_
  refine .bind (statementsFrom_accounts h terminator _ false .nil) fun result new hresult => ?_
  refine .pure ?_
  cases result with
  | none =>
    rw [hresult.noted_eq_nil]
    exact .alone rfl
  | some e => exact hresult

/-! ## The whole grammar -/

theorem rule_accounts (h : ∀ goal, Accounts source tokens [] (read goal) Expr.nodes) (goal : Goal) :
    Accounts source tokens [] (rule read goal) Expr.nodes := by
  cases goal with
  | sequence terminator => exact sequence_accounts h terminator
  | statement => exact statement_accounts h
  | conditional => exact conditional_accounts h
  | disjunction => exact disjunction_accounts h
  | pair => exact pair_accounts h
  | unary => exact unary_accounts h

theorem readWithin_accounts (n : Nat) (goal : Goal) :
    Accounts source tokens [] (readWithin n goal) Expr.nodes := by
  induction n generalizing goal with
  | zero =>
    intro s p a q _ _ hx
    cases hx
  | succ n ih => exact rule_accounts ih goal

end Grammar

/-! ## Whole texts -/

namespace Script

variable {script : Script}

/-- The tree of a script tells what was noted while it was read, and nothing unfair was said of its
dice. -/
theorem accounted {n : Nat} {cs : List Char} {tokens : List Token}
    (h : ofTokensWithin? n cs tokens = some script) :
    Kept cs tokens script.mistakes script.root.nodes ∧ FairOnDice tokens script.mistakes := by
  rw [ofTokensWithin?_eq] at h
  obtain ⟨⟨root, q⟩, hq, rfl⟩ := Option.map_eq_some_iff.1 h
  obtain ⟨-, new, hmistakes, hfair, hkept⟩ :=
    Grammar.readWithin_accounts _ _ _ _ _ _ rfl (Cursor.within_ofTokens tokens) hq
  rw [List.nil_append] at hmistakes hkept
  subst hmistakes
  exact ⟨hkept, hfair⟩

/-- A script is what its tokens are read as, unless reading its dice broke down. -/
theorem parse_eq_some_iff {text : String} :
    parse text = some script ↔ ∃ tokens last, Token.scan text = some (tokens, last) ∧
      ofTokensWithin? (tokens.length + 1) text.toList tokens = some script ∧
      script.isBroken = false := by
  unfold parse
  constructor
  · intro h
    obtain ⟨⟨tokens, last⟩, hscan, h⟩ := Option.bind_eq_some_iff.1 h
    obtain ⟨read, hread, h⟩ := Option.bind_eq_some_iff.1 h
    split at h
    · cases h
    · rename_i hbroken
      cases h
      exact ⟨tokens, last, hscan, hread, Bool.eq_false_iff.2 hbroken⟩
  · rintro ⟨tokens, last, hscan, hread, hbroken⟩
    simp [hscan, hread, hbroken]

end Script

namespace Grammar

/-- In a text that is short enough, reading a token of dice comes to what a short literal asks
for. -/
theorem diceAmong_scanned {text : String} {reading : Except DiceSpec.Failure DiceSpec}
    (h : DiceAmong (scanned text) reading) :
    ∃ l : DiceLiteral, l.Short ∧ reading = .ok l.spec := by
  obtain ⟨t, ht, hkind, hread⟩ := h
  obtain ⟨l, hl, htext⟩ := (Token.lex_scanned text.toList).dice t ht hkind
  exact ⟨l, hl, hread.symm.trans (hl.read htext)⟩

/-- Nothing is said of dice that are cut out whole. -/
theorem no_dice_are_blamed (text : String) {m : Mistake} {failure : DiceSpec.Failure}
    (hm : m.blamed? = some failure) :
    ∀ message ∈ (Script.ofText text).mistakes, ¬ m.text.toList <+: message.toList := by
  intro message hmessage hfront
  have hread := more_nesting_changes_nothing (Nat.lt_succ_self (scanned text).length)
  have hfair := (Script.accounted hread).2 message hmessage m hfront failure hm
  obtain ⟨l, -, hok⟩ := diceAmong_scanned hfair
  cases hok

end Grammar

/-- A text of fewer than 2 ^ 32 bytes is a script, and its tokens are those that its characters
tell. -/
theorem Script.parse_of_small {text : String} (h : text.utf8ByteSize < 2 ^ 32) :
    parse text = some (ofText text) := by
  refine parse_eq_some_iff.2 ⟨_, _, Token.scan_of_small h,
    Grammar.more_nesting_changes_nothing (Nat.lt_succ_self _), ?_⟩
  rw [isBroken, List.any_eq_false]
  intro message hmessage hfront
  exact Grammar.no_dice_are_blamed text (m := .brokenDice) rfl message hmessage
    (List.isPrefixOf_iff_prefix.1 hfront)

/-- A script has mistakes exactly if its tree has a node of one, and the nodes of mistakes in the
tree tell mistakes that were noted, in the order they were noted. A script comes of every text of
fewer than 2 ^ 32 bytes. -/
theorem no_mistake_is_lost (text : String) :
    (text.utf8ByteSize < 2 ^ 32 → (Script.parse text).isSome) ∧
    ∀ script, Script.parse text = some script →
      (script.mistakes = [] ↔ ∀ e ∈ script.root.nodes, e.isError = false) ∧
      (messages script.root.nodes).Sublist script.mistakes := by
  refine ⟨fun hsmall => by rw [Script.parse_of_small hsmall]; rfl, fun script hparse => ?_⟩
  obtain ⟨tokens, -, -, hread, -⟩ := Script.parse_eq_some_iff.1 hparse
  obtain ⟨hkept, -⟩ := Script.accounted hread
  refine ⟨⟨fun hnone => ?_, fun hclean => ?_⟩, hkept.messages_sublist⟩
  · have hmessages : messages script.root.nodes = [] := by
      rw [← List.sublist_nil, ← hnone]
      exact hkept.messages_sublist
    exact messages_eq_nil_iff.1 hmessages
  · by_contra hsome
    exact hkept.messages_ne_nil hsome (messages_eq_nil_iff.2 hclean)

end DiceScript
