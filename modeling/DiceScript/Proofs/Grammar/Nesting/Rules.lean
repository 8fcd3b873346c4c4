import DiceScript.Proofs.Grammar.Inset.Statements
import DiceScript.Proofs.Grammar.Nesting
import DiceScript.Proofs.Grammar.Nesting.Leads

/-!
Every construct stays inside the brackets it stands in. Whether it is completed or given up, its
reader comes to where the brackets around it are still open.
-/

namespace DiceScript

open Reader Attempt Grammar Operators Cursor

variable {tail : List Token} {read : Goal → Reader Expr}

namespace Grammar

/-- The open brackets fit a goal: a sequence stands inside the bracket that ends it. -/
def Goal.Fits (base : List TokenKind) : Goal → Prop
  | .sequence terminator => ∃ closing, terminator = some closing ∧ base.head? = some closing
  | _ => True

variable (tail) in
/-- A reader stays inside the brackets it stands in. -/
def Stays {α : Type} (x : Reader α) : Prop :=
  ∀ base c, c.Encloses tail base → LeadsTo x c (Cursor.Encloses tail base)

variable (tail) in
/-- So does an attempt, completed or not. -/
def StaysTrying {α : Type} (x : Attempt α) : Prop :=
  ∀ base c, c.Encloses tail base →
    TriesTo x c (Cursor.Encloses tail base) (Cursor.Encloses tail base)

variable (tail) in
/-- The grammar stays inside brackets. -/
def ReadsNested (read : Goal → Reader Expr) : Prop :=
  ∀ goal base c, goal.Fits base → c.Encloses tail base →
    LeadsTo (read goal) c (Cursor.Encloses tail base)

/-- A kind that is neither a bracket nor a semicolon. -/
def Mere (kind : TokenKind) : Prop :=
  kind.closing? = none ∧ kind.closes = false ∧ kind ≠ .semicolon

instance (kind : TokenKind) : Decidable (Mere kind) := inferInstanceAs (Decidable (_ ∧ _ ∧ _))

theorem mere_advance {base : List TokenKind} {c : Cursor} (htail : BeginsBehind tail)
    (hc : c.Encloses tail base) (hkind : Mere c.kind) : c.advance.Encloses tail base :=
  hc.plain htail hkind.1 hkind.2.1 (.inl hkind.2.2)

/-! ## Lists and blocks -/

theorem itemsFrom_leads (h : ReadsNested tail read) (htail : BeginsBehind tail)
    {closing : TokenKind} (hclosing : closing.closes = true) (m : Mistake) (n : Nat)
    {base : List TokenKind} {c : Cursor} (hc : c.Encloses tail (closing :: base)) :
    TriesTo (itemsFrom read closing m n) c (Cursor.Encloses tail base)
      (Cursor.Encloses tail base) := by
  induction n generalizing c with
  | zero =>
    intro s p r q _ hx
    cases hx
  | succ n ih =>
    refine .lift_bind (.withPairs (h .conditional _ c trivial hc)) fun item d hd => ?_
    refine .lift_peek_bind ?_
    split
    · rename_i hcomma
      have hnext : d.advance.Encloses tail (closing :: base) := by
        refine mere_advance htail hd ?_
        rw [hcomma]
        decide
      exact .lift_advance_bind (.bind (ih hnext) fun _ _ he => .pure _ he)
    · split
      · rename_i hkind
        exact .lift_advance_bind (.pure _ (hd.closes htail hkind hclosing))
      · exact .fail _ hd.outer

theorem items_leads (h : ReadsNested tail read) (htail : BeginsBehind tail)
    {closing : TokenKind} (hclosing : closing.closes = true) (m : Mistake)
    {base : List TokenKind} {c : Cursor} (hc : c.Encloses tail (closing :: base)) :
    TriesTo (items read closing m) c (Cursor.Encloses tail base) (Cursor.Encloses tail base) := by
  refine .lift_consumeIf_bind (fun hkind => ?_) (.lift_remaining_bind fun n => ?_)
  · exact .pure _ (hc.closes htail hkind hclosing)
  · exact itemsFrom_leads h htail hclosing m _ hc

theorem arguments_stays (h : ReadsNested tail read) (htail : BeginsBehind tail) :
    StaysTrying tail (arguments read) := by
  intro base c hc
  have hopen : TriesTo (expect .openParen .argumentsStart) c
      (Cursor.Encloses tail (.closeParen :: base)) (Cursor.Encloses tail base) :=
    .expect _ (fun hkind => hc.opens htail (by rw [hkind]; rfl)) hc
  exact .bind hopen fun _ d hd => items_leads h htail rfl _ hd

/-- The bracket that closes the innermost open one, behind a construct. -/
theorem close_leads (htail : BeginsBehind tail) {closing : TokenKind}
    (hclosing : closing.closes = true) (place : Place) (e : Expr) {base : List TokenKind}
    {c : Cursor} (hc : c.Encloses tail (closing :: base)) :
    TriesTo (do expect closing place; return e) c (Cursor.Encloses tail base)
      (Cursor.Encloses tail base) := by
  have hclose : TriesTo (expect closing place) c (Cursor.Encloses tail base)
      (Cursor.Encloses tail base) :=
    .expect _ (fun hkind => hc.closes htail hkind hclosing) hc.outer
  exact .bind hclose fun _ _ hd => .pure _ hd

/-- Statements in an open bracket, and the bracket that closes it. -/
theorem enclosed_leads (h : ReadsNested tail read) (htail : BeginsBehind tail)
    {closing : TokenKind} (hclosing : closing.closes = true) (place : Place)
    {base : List TokenKind} {c : Cursor} (hc : c.Encloses tail (closing :: base)) :
    TriesTo
      (do
        let body ← withPairs (read (.sequence (some closing)))
        expect closing place
        return body) c (Cursor.Encloses tail base) (Cursor.Encloses tail base) := by
  refine .lift_bind (.withPairs (h _ _ c ⟨closing, rfl, rfl⟩ hc)) fun body d hd => ?_
  exact close_leads htail hclosing place body hd

theorem block_stays (h : ReadsNested tail read) (htail : BeginsBehind tail) (place : Place) :
    StaysTrying tail (block read place) := by
  intro base c hc
  have hopen : TriesTo (expect .openCurly place) c
      (Cursor.Encloses tail (.closeCurly :: base)) (Cursor.Encloses tail base) :=
    .expect _ (fun hkind => hc.opens htail (by rw [hkind]; rfl)) hc
  exact .bind hopen fun _ d hd => enclosed_leads h htail rfl _ hd

/-! ## Functions -/

theorem functionBody_stays (htail : BeginsBehind tail) (params : List String) :
    StaysTrying tail (functionBody params) := by
  intro base c hc
  refine .lift_here_bind ?_
  split
  · exact .fail _ hc
  · cases hgroup : Cursor.groupAt? c.rest with
    | none => exact .failAt _ _ hc
    | some g =>
      refine .lift_setting_bind fun s => ?_
      exact .lift_bind (.moveTo (hc.behind_group htail hgroup)) fun _ d hd => .pure _ hd

theorem functionAfter_leads (htail : BeginsBehind tail) {g : Cursor.Group}
    (harrow : g.followedBy .arrow = true) {base : List TokenKind} {c : Cursor}
    (hc : c.Encloses tail base) (hg : Cursor.groupAt? c.rest = some g) :
    TriesTo (functionAfter g) c (Cursor.Encloses tail base) (Cursor.Encloses tail base) := by
  refine .lift_here_bind ?_
  cases Cursor.parameters? true g.inside with
  | none => exact .failAt _ _ hc
  | some found =>
    obtain ⟨params, dangling⟩ := found
    dsimp only
    split
    · exact .failAt _ _ hc
    · -- the arrow behind the parentheses is passed with them
      have hbehind := hc.behind_group htail hg
      have hkind : (c.skip (g.inside.length + 2)).kind = .arrow := by
        obtain ⟨t, after, hafter, ht⟩ := Cursor.Group.followedBy_iff.1 harrow
        have hdrop : (g.opening :: (g.inside ++ g.closing :: g.after)).drop (g.inside.length + 2) =
            g.after := by simp
        rw [Cursor.kind_eq, Cursor.rest_skip, Cursor.groupAt?_parts hg, hdrop, hafter]
        exact ht
      have harrow' : (c.skip (g.inside.length + 3)).Encloses tail base := by
        rw [skip_succ]
        refine mere_advance htail hbehind ?_
        rw [hkind]
        decide
      exact .lift_bind (.moveTo harrow') fun _ d hd => functionBody_stays htail params base d hd

theorem parenthesized_leads (h : ReadsNested tail read) (htail : BeginsBehind tail)
    {base : List TokenKind} {c : Cursor} (hc : c.Encloses tail base) (hkind : c.kind = .openParen) :
    TriesTo (parenthesized read) c (Cursor.Encloses tail base) (Cursor.Encloses tail base) := by
  refine .lift_here_bind ?_
  cases hgroup : (Cursor.groupAt? c.rest).filter (·.followedBy .arrow) with
  | some g =>
    obtain ⟨hg, harrow⟩ := Option.filter_eq_some_iff.1 hgroup
    exact functionAfter_leads htail harrow hc hg
  | none =>
    have hopen : c.advance.Encloses tail (.closeParen :: base) :=
      hc.opens htail (by rw [hkind]; rfl)
    exact .lift_advance_bind (enclosed_leads h htail rfl _ hopen)

/-! ## Leaves and suffixes -/

theorem namedCall_stays (h : ReadsNested tail read) (htail : BeginsBehind tail) (name : String) :
    StaysTrying tail (namedCall read name) :=
  fun base c hc => .bind (arguments_stays h htail base c hc) fun _ _ hd => .pure _ hd

theorem event_stays (h : ReadsNested tail read) (htail : BeginsBehind tail) :
    StaysTrying tail (event read) := by
  intro base c hc
  refine .lift_bind (.withPairs (h .conditional base c trivial hc)) fun argument d hd => ?_
  have hquote : TriesTo (expect .quote .eventEnd) d (Cursor.Encloses tail base)
      (Cursor.Encloses tail base) :=
    .expect _ (fun hkind => mere_advance htail hd (by rw [hkind]; decide)) hd
  exact .bind hquote fun _ _ he => .pure _ he

theorem leafAt_leads (h : ReadsNested tail read) (htail : BeginsBehind tail) (d : Cursor)
    (token : Token) {base : List TokenKind} {c : Cursor} (hc : c.Encloses tail base)
    (hkind : c.kind = token.kind) :
    LeadsTo (leafAt read d token) c (Cursor.Encloses tail base) := by
  have hnext : ∀ {kind : TokenKind}, token.kind = kind → Mere kind →
      c.advance.Encloses tail base := by
    intro kind htoken hmere
    refine mere_advance htail hc ?_
    rw [hkind, htoken]
    exact hmere
  unfold leafAt
  split
  · rename_i htoken
    refine .advance_bind ?_
    split
    · exact .pure _ (hnext htoken (by decide))
    · exact .mistakeAt _ _ (hnext htoken (by decide))
  · rename_i htoken
    exact .advance_bind (.pure _ (hnext htoken (by decide)))
  · rename_i htoken
    exact .advance_bind (.pure _ (hnext htoken (by decide)))
  · rename_i htoken
    refine .advance_bind ?_
    split
    · exact .pure _ (hnext htoken (by decide))
    · exact .mistakeAt _ _ (hnext htoken (by decide))
    · exact .mistakeAt _ _ (hnext htoken (by decide))
  · rename_i htoken
    have hc' := hnext htoken (by decide)
    refine .advance_bind (.peek_bind ?_)
    split
    · exact .settle (namedCall_stays h htail _ base _ hc')
    · exact .pure _ hc'
  · rename_i htoken
    exact .advance_bind (.settle (namedCall_stays h htail _ base _ (hnext htoken (by decide))))
  · rename_i htoken
    exact .settle (parenthesized_leads h htail hc (hkind.trans htoken))
  · rename_i htoken
    exact .advance_bind (.settle (functionBody_stays htail _ base _ (hnext htoken (by decide))))
  · exact .settle (block_stays h htail _ base c hc)
  · rename_i htoken
    have hopen : c.advance.Encloses tail (.closeSquare :: base) :=
      hc.opens htail (by rw [hkind, htoken]; rfl)
    refine .advance_bind (.settle ?_)
    exact .bind (items_leads h htail rfl _ hopen) fun _ _ he => .pure _ he
  · rename_i htoken
    exact .advance_bind (.pure _ (hnext htoken (by decide)))
  · rename_i htoken
    exact .advance_bind (.settle (event_stays h htail base _ (hnext htoken (by decide))))
  · rename_i htoken
    exact .advance_bind (.mistakeAt _ _ (hnext htoken (by decide)))
  · exact .mistakeAt _ _ hc

theorem leaf_stays (h : ReadsNested tail read) (htail : BeginsBehind tail) :
    Stays tail (leaf read) := by
  intro base c hc
  refine .here_bind ?_
  cases hrest : c.rest with
  | nil => exact .mistakeAt _ _ hc
  | cons token rest => exact leafAt_leads h htail c token hc (Inset.kind_of_rest hrest)

theorem indexOf_leads (h : ReadsNested tail read) (htail : BeginsBehind tail) (container : Expr)
    {base : List TokenKind} {c : Cursor} (hc : c.Encloses tail (.closeSquare :: base)) :
    TriesTo (indexOf read container) c (Cursor.Encloses tail base) (Cursor.Encloses tail base) := by
  refine .lift_here_bind ?_
  dsimp only
  split
  · rename_i hmark
    have hmere : Mere c.kind := by
      simp only [Bool.and_eq_true, Bool.or_eq_true, decide_eq_true_eq] at hmark
      rcases hmark.1 with hkind | hkind <;> rw [hkind] <;> decide
    exact .lift_advance_bind (close_leads htail rfl _ _ (mere_advance htail hc hmere))
  · exact .lift_bind (.withPairs (h .conditional _ c trivial hc)) fun index d hd =>
      close_leads htail rfl _ _ hd

theorem memberOf_stays (h : ReadsNested tail read) (htail : BeginsBehind tail) (target : Expr) :
    StaysTrying tail (memberOf read target) := by
  intro base c hc
  refine .lift_here_bind ?_
  cases hrest : c.rest with
  | nil => exact .fail _ hc
  | cons token rest =>
    dsimp only
    split
    · rename_i hkind
      have hnext : c.advance.Encloses tail base := by
        refine mere_advance htail hc ?_
        rw [Inset.kind_of_rest hrest, hkind]
        decide
      refine .lift_advance_bind (.lift_peek_bind ?_)
      split
      · exact .bind (arguments_stays h htail base _ hnext) fun _ _ he => .pure _ he
      · exact .pure _ hnext
    · exact .fail _ hc

theorem suffix?_stays (h : ReadsNested tail read) (htail : BeginsBehind tail) (e : Expr) :
    StaysTrying tail (suffix? read e) := by
  intro base c hc
  refine .lift_peek_bind ?_
  split
  · rename_i hkind
    have hopen : c.advance.Encloses tail (.closeSquare :: base) :=
      hc.opens htail (by rw [hkind]; rfl)
    exact .lift_advance_bind (.bind (indexOf_leads h htail e hopen) fun _ _ he => .pure _ he)
  · rename_i hkind
    have hnext := mere_advance htail hc (by rw [hkind]; decide)
    exact .lift_advance_bind
      (.bind (memberOf_stays h htail e base _ hnext) fun _ _ he => .pure _ he)
  · split
    · exact .bind (arguments_stays h htail base c hc) fun _ _ he => .pure _ he
    · exact .pure _ hc
  · exact .pure _ hc

theorem suffixesFrom_stays (h : ReadsNested tail read) (htail : BeginsBehind tail) (n : Nat)
    (e : Expr) : Stays tail (suffixesFrom read n e) := by
  induction n generalizing e with
  | zero =>
    intro base c _ s p a q _ hx
    cases hx
  | succ n ih =>
    intro base c hc s p a q hp hx
    rw [suffixesFrom, Reader.outcome_bind] at hx
    obtain ⟨⟨r, t⟩, hr, hafter⟩ := Option.bind_eq_some_iff.1 hx
    obtain ⟨hok, herror⟩ := suffix?_stays h htail e base c hc s p r t hp hr
    rcases r with node | (_ | next)
    · cases hafter
      exact herror rfl
    · cases hafter
      exact hok rfl
    · exact ih next base t.cursor (hok rfl) s t a q rfl hafter

theorem suffixed_stays (h : ReadsNested tail read) (htail : BeginsBehind tail) :
    Stays tail (suffixed read) := by
  intro base c hc
  refine .bind (leaf_stays h htail base c hc) fun e d hd => .remaining_bind fun n => ?_
  exact suffixesFrom_stays h htail _ e base d hd

/-! ## Bonuses -/

theorem bareWord?_stays (htail : BeginsBehind tail) : Stays tail bareWord? := by
  intro base c hc
  refine .here_bind ?_
  cases hrest : c.rest with
  | nil => exact .pure _ hc
  | cons token rest =>
    dsimp only
    split
    · rename_i hword
      have hkind : token.kind = .identifier := by simpa using (Bool.and_eq_true_iff.1 hword).1
      refine .advance_bind (.pure _ (mere_advance htail hc ?_))
      rw [Inset.kind_of_rest hrest, hkind]
      decide
    · exact .pure _ hc

theorem bonusArgument_stays (h : ReadsNested tail read) (htail : BeginsBehind tail) :
    Stays tail (bonusArgument read) := by
  intro base c hc
  refine .here_bind ?_
  cases hrest : c.rest with
  | nil => exact .withPairs (h .conditional base c trivial hc)
  | cons token rest =>
    have hnext : ∀ {kind : TokenKind}, token.kind = kind → Mere kind →
        c.advance.Encloses tail base := by
      intro kind hkind hmere
      refine mere_advance htail hc ?_
      rw [Inset.kind_of_rest hrest, hkind]
      exact hmere
    dsimp only
    split
    · rename_i hword
      have hkind : token.kind = .identifier := by simpa using (Bool.and_eq_true_iff.1 hword).2
      exact .advance_bind (.pure _ (hnext hkind (by decide)))
    · split
      · rename_i hstar
        have hkind : token.kind = .star := by simpa using (Bool.and_eq_true_iff.1 hstar).2
        exact .advance_bind (.pure _ (hnext hkind (by decide)))
      · exact .withPairs (h .conditional base c trivial hc)

theorem bonusDetails_leads (h : ReadsNested tail read) (htail : BeginsBehind tail)
    {base : List TokenKind} {c : Cursor} (hc : c.Encloses tail (.closeParen :: base)) :
    TriesTo (bonusDetails read) c (Cursor.Encloses tail base) (Cursor.Encloses tail base) := by
  have hcomma : ∀ {d : Cursor}, d.Encloses tail (.closeParen :: base) → d.kind = .comma →
      d.advance.Encloses tail (.closeParen :: base) := by
    intro d hd hkind
    refine mere_advance htail hd ?_
    rw [hkind]
    decide
  refine .lift_bind (bonusArgument_stays h htail _ c hc) fun name d hd => ?_
  refine .lift_consumeIf_bind (fun hkind => ?_) (close_leads htail rfl _ _ hd)
  refine .lift_bind (bonusArgument_stays h htail _ _ (hcomma hd hkind)) fun type d hd => ?_
  refine .lift_consumeIf_bind (fun hkind => ?_) (close_leads htail rfl _ _ hd)
  refine .lift_bind (.withPairs (h .conditional _ _ trivial (hcomma hd hkind))) fun value d hd => ?_
  exact close_leads htail rfl _ _ hd

theorem bonus_stays (h : ReadsNested tail read) (htail : BeginsBehind tail) :
    StaysTrying tail (bonus read) := by
  intro base c hc
  refine .lift_bind (bareWord?_stays htail base c hc) fun word d hd => ?_
  cases word with
  | some word => exact .pure _ hd
  | none =>
    refine .lift_here_bind ?_
    cases hrest : d.rest with
    | nil => exact .fail _ hd
    | cons token rest =>
      dsimp only
      split
      · rename_i hkind
        refine .lift_advance_bind (.pure _ (mere_advance htail hd ?_))
        rw [Inset.kind_of_rest hrest, hkind]
        decide
      · split
        · rename_i hkind
          have hopen : d.advance.Encloses tail (.closeParen :: base) :=
            hd.opens htail (by rw [Inset.kind_of_rest hrest, hkind]; rfl)
          exact .lift_advance_bind (bonusDetails_leads h htail hopen)
        · exact .fail _ hd

/-! ## Operators -/

/-- No table of operators has a bracket or a semicolon. -/
theorem mere_of_join {join? : Join} (h : join? ∈ Inset.tables) {kind : TokenKind}
    {join : Expr → Expr → Expr} (hkind : join? kind = some join) : Mere kind := by
  simp only [Inset.tables, List.mem_cons, List.not_mem_nil, or_false] at h
  rcases h with rfl | rfl | rfl | rfl | rfl | rfl | rfl | rfl
  all_goals cases kind <;> first | decide | cases hkind

theorem chainFrom_stays {operand : Reader Expr} {join? : Join} (htail : BeginsBehind tail)
    (hjoin : join? ∈ Inset.tables) (hoperand : Stays tail operand) (n : Nat) (left : Expr) :
    Stays tail (chainFrom operand join? n left) := by
  induction n generalizing left with
  | zero =>
    intro base c _ s p a q _ hx
    cases hx
  | succ n ih =>
    intro base c hc
    refine .peek_bind ?_
    cases hkind : join? c.kind with
    | none => exact .pure _ hc
    | some join =>
      have hnext := mere_advance htail hc (mere_of_join hjoin hkind)
      refine .advance_bind (.bind (hoperand base _ hnext) fun right d hd => ?_)
      exact ih _ base d hd

theorem chain_stays {first operand : Reader Expr} {join? : Join} (htail : BeginsBehind tail)
    (hjoin : join? ∈ Inset.tables) (hfirst : Stays tail first)
    (hoperand : Stays tail operand) : Stays tail (chain first operand join?) := by
  intro base c hc
  refine .bind (hfirst base c hc) fun left d hd => .remaining_bind fun n => ?_
  exact chainFrom_stays htail hjoin hoperand _ left base d hd

theorem unary_stays (h : ReadsNested tail read) (htail : BeginsBehind tail) :
    Stays tail (unary read) := by
  intro base c hc
  refine .peek_bind ?_
  split
  · rename_i apply hunary
    have hmere : Mere c.kind := by
      cases hkind : c.kind <;> rw [hkind] at hunary <;> first | decide | cases hunary
    refine .advance_bind (.bind (h .unary base _ trivial (mere_advance htail hc hmere)) ?_)
    exact fun _ _ hd => .pure _ hd
  · split
    · rename_i hdollar
      have hnext := mere_advance htail hc (by rw [hdollar]; decide)
      exact .advance_bind (.settle (bonus_stays h htail base _ hnext))
    · exact suffixed_stays h htail base c hc

theorem pair_stays (h : ReadsNested tail read) (htail : BeginsBehind tail) :
    Stays tail (pair read) := by
  intro base c hc
  refine .bind (unary_stays h htail base c hc) fun key d hd => .setting_bind fun s => ?_
  refine .peek_bind ?_
  split
  · rename_i hcolon
    have hkind : d.kind = .colon := by simpa using (Bool.and_eq_true_iff.1 hcolon).2
    have hnext := mere_advance htail hd (by rw [hkind]; decide)
    exact .advance_bind (.bind (h .pair base _ trivial hnext) fun _ _ he => .pure _ he)
  · exact .pure _ hd

theorem product_stays (h : ReadsNested tail read) (htail : BeginsBehind tail) :
    Stays tail (product read) :=
  chain_stays htail (by simp [Inset.tables]) (pair_stays h htail) (pair_stays h htail)

theorem sum_stays (h : ReadsNested tail read) (htail : BeginsBehind tail) :
    Stays tail (sum read) :=
  chain_stays htail (by simp [Inset.tables]) (product_stays h htail) (product_stays h htail)

theorem arrayOperation_stays (h : ReadsNested tail read) (htail : BeginsBehind tail) :
    Stays tail (arrayOperation read) :=
  chain_stays htail (by simp [Inset.tables]) (sum_stays h htail) (sum_stays h htail)

theorem relation_stays (h : ReadsNested tail read) (htail : BeginsBehind tail) :
    Stays tail (relation read) :=
  chain_stays htail (by simp [Inset.tables]) (arrayOperation_stays h htail)
    (arrayOperation_stays h htail)

theorem equality_stays (h : ReadsNested tail read) (htail : BeginsBehind tail) :
    Stays tail (equality read) :=
  chain_stays htail (by simp [Inset.tables]) (relation_stays h htail) (relation_stays h htail)

theorem askedType_stays (h : ReadsNested tail read) (htail : BeginsBehind tail) :
    Stays tail (askedType read) := by
  intro base c hc
  refine .bind (bareWord?_stays htail base c hc) fun word d hd => ?_
  cases word with
  | some word => exact .pure _ hd
  | none => exact equality_stays h htail base d hd

theorem bonusOfStat_stays (h : ReadsNested tail read) (htail : BeginsBehind tail) :
    Stays tail (bonusOfStat read) :=
  chain_stays htail (by simp [Inset.tables]) (equality_stays h htail) (askedType_stays h htail)

theorem conjunction_stays (h : ReadsNested tail read) (htail : BeginsBehind tail) :
    Stays tail (conjunction read) :=
  chain_stays htail (by simp [Inset.tables]) (bonusOfStat_stays h htail)
    (bonusOfStat_stays h htail)

theorem disjunction_stays (h : ReadsNested tail read) (htail : BeginsBehind tail) :
    Stays tail (disjunction read) :=
  chain_stays htail (by simp [Inset.tables]) (conjunction_stays h htail)
    (conjunction_stays h htail)

/-! ## Conditionals -/

theorem branchesFrom_stays (h : ReadsNested tail read) (htail : BeginsBehind tail) (n : Nat) :
    StaysTrying tail (branchesFrom read n) := by
  induction n with
  | zero =>
    intro base c _ s p r q _ hx
    cases hx
  | succ n ih =>
    intro base c hc
    refine .lift_bind (h .disjunction base c trivial hc) fun condition d hd => ?_
    refine .bind (block_stays h htail _ base d hd) fun body e he => ?_
    refine .lift_consumeIf_bind (fun helse => ?_) (.pure _ he)
    have hnext := mere_advance htail he (by rw [helse]; decide)
    refine .lift_consumeIf_bind (fun hif => ?_) ?_
    · have hnext' := mere_advance htail hnext (by rw [hif]; decide)
      exact .bind (ih base _ hnext') fun _ _ hf => .pure _ hf
    · exact .bind (block_stays h htail _ base _ hnext) fun _ _ hf => .pure _ hf

theorem ternary_stays (h : ReadsNested tail read) (htail : BeginsBehind tail) (test : Expr) :
    StaysTrying tail (ternary read test) := by
  intro base c hc
  refine .lift_bind (.withoutPairs (h .conditional base c trivial hc)) fun yes d hd => ?_
  have hcolon : TriesTo (expect .colon .ternary) d (Cursor.Encloses tail base)
      (Cursor.Encloses tail base) :=
    .expect _ (fun hkind => mere_advance htail hd (by rw [hkind]; decide)) hd
  refine .bind hcolon fun _ e he => ?_
  exact .lift_bind (h .conditional base e trivial he) fun _ _ hf => .pure _ hf

theorem conditional_stays (h : ReadsNested tail read) (htail : BeginsBehind tail) :
    Stays tail (conditional read) := by
  intro base c hc
  refine .here_bind ?_
  split
  · rename_i hif
    have hkind : c.kind = .ifWord := by simpa using (Bool.and_eq_true_iff.1 hif).1
    have hnext := mere_advance htail hc (by rw [hkind]; decide)
    refine .settle (.lift_advance_bind (.lift_remaining_bind fun n => ?_))
    exact .bind (branchesFrom_stays h htail _ base _ hnext) fun _ _ hd => .pure _ hd
  · refine .bind (disjunction_stays h htail base c hc) fun test d hd => ?_
    refine .consumeIf_bind (fun hkind => ?_) (.pure _ hd)
    refine .settle (ternary_stays h htail test base _ (mere_advance htail hd ?_))
    rw [hkind]
    decide

/-! ## Statements -/

theorem loop_leads (h : ReadsNested tail read) (htail : BeginsBehind tail) {base : List TokenKind}
    {c : Cursor} (hc : c.Encloses tail base) (hkind : c.kind = .forWord) :
    TriesTo (loop read) c (Cursor.Encloses tail base) (Cursor.Encloses tail base) := by
  have hcomma : ∀ (place : Place) {d : Cursor}, d.Encloses tail base →
      TriesTo (expect .comma place) d (Cursor.Encloses tail base) (Cursor.Encloses tail base) :=
    fun place d hd => .expect _ (fun hkind => mere_advance htail hd (by rw [hkind]; decide)) hd
  have hnext := mere_advance htail hc (by rw [hkind]; decide)
  refine .lift_advance_bind (.lift_here_bind ?_)
  cases hrest : c.advance.rest with
  | nil => exact .fail _ hnext
  | cons token rest =>
    dsimp only
    split
    · rename_i hname
      have hnext' := mere_advance htail hnext (by rw [Inset.kind_of_rest hrest, hname]; decide)
      refine .lift_advance_bind (.bind (hcomma _ hnext') fun _ d hd => ?_)
      refine .lift_bind (.withPairs (h .conditional base d trivial hd)) fun iterable e he => ?_
      refine .bind (hcomma _ he) fun _ f hf => ?_
      exact .bind (block_stays h htail _ base f hf) fun _ _ hg => .pure _ hg
    · exact .fail _ hnext

theorem assignTo_stays (target : Expr) (op : AssignOp) (d : Cursor) (value : Expr) :
    Stays tail (assignTo target op d value) := by
  intro base c hc
  cases target with
  | var name => exact .pure _ hc
  | index container position => exact .pure _ hc
  | _ => exact .mistakeAt _ _ hc

theorem statement_stays (h : ReadsNested tail read) (htail : BeginsBehind tail) :
    Stays tail (statement read) := by
  intro base c hc
  refine .peek_bind ?_
  split
  · rename_i hfor
    exact .settle (loop_leads h htail hc hfor)
  · refine .bind (conditional_stays h htail base c hc) fun target d hd => .here_bind ?_
    split
    · exact .pure _ hd
    · rename_i op hassign
      have hmere : Mere d.kind := by
        cases hkind : d.kind <;> rw [hkind] at hassign <;> first | decide | cases hassign
      refine .advance_bind (.bind (h .statement base _ trivial (mere_advance htail hd hmere)) ?_)
      exact fun value e he => assignTo_stays target op d value base e he

/-- What is left of a statement is skipped inside the brackets that its sequence stands in. -/
theorem wholeStatement_leads (h : ReadsNested tail read) (htail : BeginsBehind tail)
    {terminator : Option TokenKind} {base : List TokenKind} {c : Cursor}
    (hc : c.Encloses tail base) (hbase : base.head? = terminator) :
    LeadsTo (wholeStatement read terminator) c (Cursor.Encloses tail base) := by
  subst hbase
  have hskip : ∀ (e : Expr) (d : Cursor), d.Encloses tail base →
      LeadsTo (do
        let cursor ← here
        moveTo (cursor.skip (skipLength base.head? 0 cursor.rest))
        return e) d (Cursor.Encloses tail base) := fun e d hd =>
    .here_bind (.bind (.moveTo (hd.skipped htail)) fun _ _ he => .pure _ he)
  refine .bind (statement_stays h htail base c hc) fun e d hd => .peek_bind ?_
  split
  · exact .pure _ hd
  · dsimp only
    split
    · exact hskip e d hd
    · exact .bind (.here_bind (.mistakeAt _ _ hd)) fun node d hd => hskip _ d hd

/-- Inside a bracket a separator is passed. -/
theorem separator_advance (htail : BeginsBehind tail) {closing : TokenKind} {base : List TokenKind}
    {c : Cursor} (hc : c.Encloses tail (closing :: base)) (hkind : c.kind.separates = true) :
    c.advance.Encloses tail (closing :: base) := by
  obtain ⟨hopens, hcloses⟩ := Token.plain_of_separates hkind
  exact hc.plain htail hopens hcloses (.inr (List.cons_ne_nil _ _))

theorem turn_leads (h : ReadsNested tail read) (htail : BeginsBehind tail) (closing : TokenKind)
    (result : Option Expr) (piped : Bool) {base : List TokenKind} {c : Cursor}
    (hc : c.Encloses tail (closing :: base)) :
    LeadsTo (turn read (some closing) result piped) c (Cursor.Encloses tail (closing :: base)) := by
  refine .peek_bind ?_
  split
  · exact .pure _ hc
  · split
    · rename_i hkind
      exact .advance_bind (.pure _ (separator_advance htail hc (by rw [hkind]; rfl)))
    · refine .bind (wholeStatement_leads h htail hc rfl) fun e d hd => .peek_bind ?_
      split
      · rename_i hkind
        exact .advance_bind (.pure _ (separator_advance htail hd (by rw [hkind]; rfl)))
      · rename_i hkind
        exact .advance_bind (.pure _ (separator_advance htail hd (by rw [hkind]; rfl)))
      · exact .pure _ hd

theorem statementsFrom_leads (h : ReadsNested tail read) (htail : BeginsBehind tail)
    (closing : TokenKind) (n : Nat) (result : Option Expr) (piped : Bool) {base : List TokenKind}
    {c : Cursor} (hc : c.Encloses tail (closing :: base)) :
    LeadsTo (statementsFrom read (some closing) n result piped) c
      (Cursor.Encloses tail (closing :: base)) := by
  induction n generalizing result piped c with
  | zero =>
    intro s p a q _ hx
    cases hx
  | succ n ih =>
    refine .bind (turn_leads h htail closing result piped hc) fun t d hd => ?_
    cases t with
    | last result => exact .pure _ hd
    | again result piped => exact ih result piped hd

theorem sequence_leads (h : ReadsNested tail read) (htail : BeginsBehind tail)
    (closing : TokenKind) {base : List TokenKind} {c : Cursor}
    (hc : c.Encloses tail (closing :: base)) :
    LeadsTo (sequence read (some closing)) c (Cursor.Encloses tail (closing :: base)) := by
  refine .remaining_bind fun n => ?_
  exact .bind (statementsFrom_leads h htail closing _ none false hc) fun _ _ hd => .pure _ hd

/-! ## The whole grammar -/

/-- The induction is on the number of constructs inside each other. -/
theorem readWithin_nested (htail : BeginsBehind tail) (n : Nat) :
    ReadsNested tail (readWithin n) := by
  induction n with
  | zero =>
    intro goal base c _ _ s p a q _ hx
    cases hx
  | succ n ih =>
    intro goal base c hfits hc
    cases goal with
    | sequence terminator =>
      obtain ⟨closing, rfl, hbase⟩ := hfits
      obtain ⟨base, rfl⟩ := List.head?_eq_some_iff.1 hbase
      exact sequence_leads ih htail closing hc
    | statement => exact statement_stays ih htail base c hc
    | conditional => exact conditional_stays ih htail base c hc
    | disjunction => exact disjunction_stays ih htail base c hc
    | pair => exact pair_stays ih htail base c hc
    | unary => exact unary_stays ih htail base c hc

end Grammar

end DiceScript
