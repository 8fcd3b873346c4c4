import DiceScript.Proofs.Grammar.Bounds
import DiceScript.Proofs.Grammar.Printing
import DiceScript.Proofs.Grammar.Safety
import DiceScript.Proofs.Token.Words

/-!
Reading what is written. The words of an expression, read at the level they are written for, give
that expression back, as long as no word after them binds as tightly.
-/

namespace DiceScript.Grammar

open Reader Operators

/-! ## Readers of levels -/

namespace Level

variable (read : Goal → Reader Expr)

/-- The reader of a level. -/
def reader : Level → Reader Expr
  | conditional => Grammar.conditional read
  | disjunction => Grammar.disjunction read
  | conjunction => Grammar.conjunction read
  | bonusOfStat => Grammar.bonusOfStat read
  | equality => Grammar.equality read
  | relation => Grammar.relation read
  | arrayOperation => Grammar.arrayOperation read
  | sum => Grammar.sum read
  | product => Grammar.product read
  | pair => Grammar.pair read
  | unary => Grammar.unary read
  | leaf => suffixed read

/-- The reader of what stands behind an operator of a level. -/
def operand : Level → Reader Expr
  | bonusOfStat => askedType read
  | l => l.tighter.reader read

/-- The operators of a level. -/
def operators : Level → Join
  | disjunction => disjunction?
  | conjunction => conjunction?
  | bonusOfStat => getBonus?
  | equality => equality?
  | relation => relational?
  | arrayOperation => shift?
  | sum => additive?
  | product => multiplicative?
  | conditional | pair | unary | leaf => fun _ => none

/-- Whether a level has operators between operands. -/
def isChain : Level → Bool
  | conditional | pair | unary | leaf => false
  | _ => true

variable {read}

theorem reader_eq_chain {l : Level} (h : l.isChain = true) :
    l.reader read = chain (l.tighter.reader read) (l.operand read) l.operators := by
  cases l <;> first | rfl | cases h

theorem rank_le_tighter (l : Level) : l.rank ≤ l.tighter.rank := by cases l <;> decide

theorem operators_finish (l : Level) : l.operators .finish = none := by cases l <;> rfl

theorem operand_alike (n : Nat) (l : Level) :
    Alike (n + 1) (l.operand (readWithin n)) (l.operand (readWithin n)) := by
  have h : ∀ goal, Alike n (readWithin n goal) (readWithin n goal) :=
    readWithin_alike (Nat.le_refl n) (Nat.le_refl n)
  cases l with
  | conditional => exact disjunction_alike h
  | disjunction => exact conjunction_alike h
  | conjunction => exact bonusOfStat_alike h
  | bonusOfStat => exact askedType_alike h
  | equality => exact relation_alike h
  | relation => exact arrayOperation_alike h
  | arrayOperation => exact sum_alike h
  | sum => exact product_alike h
  | product => exact pair_alike h
  | pair => exact unary_alike h
  | unary => exact suffixed_alike h
  | leaf => exact suffixed_alike h

end Level

/-- The kind of the first of some tokens. -/
def kindOf (ts : List Token) : TokenKind := (ts.head?.map Token.kind).getD .finish

/-- A token of this kind ends an expression of a level. -/
structure Stops (pairs : Bool) (l : Level) (kind : TokenKind) : Prop where
  operators : ∀ m : Level, l.rank ≤ m.rank → m.operators kind = none
  question : l = .conditional → kind ≠ .question
  colon : kind = .colon → pairs = false
  suffix : kind ≠ .openSquare ∧ kind ≠ .dot ∧ kind ≠ .openParen

namespace Stops

variable {pairs : Bool} {l : Level} {kind : TokenKind}

theorem tighter (h : Stops pairs l kind) : Stops pairs l.tighter kind where
  operators := fun m hm => h.operators m (Nat.le_trans l.rank_le_tighter hm)
  question := fun hl => by cases l <;> cases hl
  colon := h.colon
  suffix := h.suffix

theorem closeParen (pairs : Bool) (l : Level) : Stops pairs l .closeParen where
  operators := fun m _ => by cases m <;> rfl
  question := fun _ => by decide
  colon := fun h => by cases h
  suffix := by decide

theorem finish (pairs : Bool) (l : Level) : Stops pairs l .finish where
  operators := fun m _ => by cases m <;> rfl
  question := fun _ => by decide
  colon := fun h => by cases h
  suffix := by decide

theorem before_colon (l : Level) : Stops false l .colon where
  operators := fun m _ => by cases m <;> rfl
  question := fun _ => by decide
  colon := fun _ => rfl
  suffix := by decide

theorem before_question (pairs : Bool) : Stops pairs .disjunction .question where
  operators := fun m _ => by cases m <;> rfl
  question := fun h => by cases h
  colon := fun h => by cases h
  suffix := by decide

/-- An operator ends its left operand, as far as that is tighter. -/
theorem before_operator (pairs : Bool) {join : Expr → Expr → Expr} (h : Joins l kind join) :
    Stops pairs l.tighter kind where
  operators := fun m hm => by
    cases h <;> cases m <;> first | rfl | (exact absurd hm (by decide))
  question := fun hl => by cases h <;> cases hl
  colon := fun hk => by cases h <;> cases hk
  suffix := by cases h <;> decide

end Stops

theorem Plain.ne_dice {e : Expr} (h : Plain e) (spec : DiceSpec) : e ≠ .dice spec := by
  cases h with
  | joined hjoin ha hb => cases hjoin <;> nofun
  | _ => nofun

theorem scaled_eq {a : Expr} (ha : Plain a) (op : BinaryOp) (b : Expr) :
    scaled op a b = .binary op a b := by
  unfold scaled
  split
  · exact absurd rfl (ha.ne_dice _)
  · rfl

/-- The join of an operator is the one that its level finds. -/
theorem Joins.operators_eq {l : Level} {kind : TokenKind} {join : Expr → Expr → Expr}
    (h : Joins l kind join) {a : Expr} (ha : Plain a) (b : Expr) :
    ∃ found, l.operators kind = some found ∧ found a b = join a b := by
  cases h
  case multiply => exact ⟨_, rfl, scaled_eq ha .multiply b⟩
  case divide => exact ⟨_, rfl, scaled_eq ha .divide b⟩
  all_goals exact ⟨_, rfl, rfl⟩

theorem Joins.isChain {l : Level} {kind : TokenKind} {join : Expr → Expr → Expr}
    (h : Joins l kind join) : l.isChain = true := by cases h <;> rfl

theorem Joins.operand_eq {l : Level} {kind : TokenKind} {join : Expr → Expr → Expr}
    (h : Joins l kind join) (read : Goal → Reader Expr) :
    l.operand read = l.tighter.reader read := by cases h <;> rfl

/-! ## What is read -/

/-- The tokens of these words give an expression at a level, whatever is read after them. -/
def Reads (l : Level) (e : Expr) (ws : List Word) : Prop :=
  ∀ (n : Nat) (s : Setting) (before ts after : List Token) (ms : List String),
    ts.map Token.word = ws → Stops s.pairs l (kindOf after) → (∀ t ∈ after, t.kind ≠ .arrow) →
    (ts ++ after).length ≤ n →
    outcome (l.reader (readWithin n)) s ⟨⟨before, ts ++ after⟩, ms⟩ =
      some (e, ⟨⟨ts.reverse ++ before, after⟩, ms⟩)

/-- The tokens of these words give an expression at a level with operators, which stands left of an
operator that may follow. -/
def Continues (l : Level) (e : Expr) (ws : List Word) : Prop :=
  ∀ (n : Nat) (s : Setting) (before ts after : List Token) (ms : List String),
    ts.map Token.word = ws → Stops s.pairs l.tighter (kindOf after) →
    (∀ t ∈ after, t.kind ≠ .arrow) → (ts ++ after).length ≤ n →
    outcome (l.reader (readWithin n)) s ⟨⟨before, ts ++ after⟩, ms⟩ =
      outcome (chainFrom (l.operand (readWithin n)) l.operators (after.length + 1) e) s
        ⟨⟨ts.reverse ++ before, after⟩, ms⟩

theorem kind_mk (before rest : List Token) : (Cursor.mk before rest).kind = kindOf rest :=
  Cursor.kind_eq _

theorem Continues.reads {l : Level} {e : Expr} {ws : List Word} (h : Continues l e ws) :
    Reads l e ws := by
  intro n s before ts after ms hts hstops harrow hn
  rw [h n s before ts after ms hts hstops.tighter harrow hn, chainFrom, outcome_bind, outcome_peek,
    Option.bind_some, kind_mk, hstops.operators l (Nat.le_refl _)]
  rfl

/-- An expression of the next tighter level stands left of an operator. -/
theorem Reads.continues {l : Level} {e : Expr} {ws : List Word} (hl : l.isChain = true)
    (h : Reads l.tighter e ws) : Continues l e ws := by
  intro n s before ts after ms hts hstops harrow hn
  rw [Level.reader_eq_chain hl, chain, outcome_bind,
    h n s before ts after ms hts hstops harrow hn]
  rfl

/-- No token is an arrow, if none is in front of the next words, among them or behind them. -/
theorem ne_arrow_cons {t : Token} {ts after : List Token} {ws : List Word}
    (ht : t.kind ≠ .arrow) (hts : ts.map Token.word = ws) (hws : ∀ w ∈ ws, w.kind ≠ .arrow)
    (hafter : ∀ u ∈ after, u.kind ≠ .arrow) : ∀ u ∈ t :: (ts ++ after), u.kind ≠ .arrow := by
  intro u hu
  simp only [List.mem_cons, List.mem_append] at hu
  rcases hu with rfl | hu | hu
  · exact ht
  · exact hws u.word (hts ▸ List.mem_map_of_mem hu)
  · exact hafter u hu

/-- The bound of a repetition does not matter as long as it exceeds the number of tokens ahead. -/
theorem outcome_chainFrom_eq {l : Level} {n k m : Nat} {e : Expr} {s : Setting} {p : Progress}
    (hk : p.remaining < k) (hm : p.remaining < m) (hn : p.remaining ≤ n) :
    outcome (chainFrom (l.operand (readWithin n)) l.operators k e) s p =
      outcome (chainFrom (l.operand (readWithin n)) l.operators m e) s p := by
  obtain ⟨a, q, hleft, hright, -⟩ :=
    chainFrom_alike (s := s) (l.operand_alike n) l.operators_finish k m e hk hm (by omega)
  rw [hleft, hright]

/-- An operator with what stands on its sides stands left of the next operator. -/
theorem Continues.joined {l : Level} {kind : TokenKind} {join : Expr → Expr → Expr} {a b : Expr}
    {xs ys : List Word} (hjoin : Joins l kind join) (hplain : Plain a) (ha : Continues l a xs)
    (hb : Reads l.tighter b ys) (hys : ∀ w ∈ ys, w.kind ≠ .arrow) :
    Continues l (join a b) (xs ++ .mark kind :: ys) := by
  intro n s before ts after ms hts hstops harrow hn
  obtain ⟨found, hfound, hsame⟩ := hjoin.operators_eq hplain b
  -- the tokens left of the operator, the operator, and the tokens right of it
  obtain ⟨ts₁, tail, rfl, h₁, htail⟩ := List.map_eq_append_iff.mp hts
  obtain ⟨t, ts₂, rfl, ht, h₂⟩ := List.map_eq_cons_iff.mp htail
  obtain rfl : t.kind = kind := congrArg Word.kind ht
  have hnext : ∀ u ∈ t :: (ts₂ ++ after), u.kind ≠ .arrow :=
    ne_arrow_cons (printedMarks_ne_arrow _ hjoin.mem_printedMarks) h₂ hys harrow
  simp only [List.append_assoc, List.cons_append, List.length_append, List.length_cons] at hn ⊢
  have hleft := ha n s before ts₁ (t :: (ts₂ ++ after)) ms h₁ (.before_operator s.pairs hjoin) hnext
    (by simp only [List.length_append, List.length_cons]; omega)
  have hright := hb n s (t :: (ts₁.reverse ++ before)) ts₂ after ms h₂ hstops harrow
    (by rw [List.length_append]; omega)
  have hadvanced : Progress.advanced ⟨⟨ts₁.reverse ++ before, t :: (ts₂ ++ after)⟩, ms⟩ =
      ⟨⟨t :: (ts₁.reverse ++ before), ts₂ ++ after⟩, ms⟩ := rfl
  -- one turn of the repetition: it sees the operator, and reads its right operand
  rw [hleft, chainFrom, outcome_bind, outcome_peek, Option.bind_some, kind_mk]
  simp only [kindOf, List.head?_cons, Option.map_some, Option.getD_some, hfound]
  rw [outcome_bind, outcome_advance, Option.bind_some, hadvanced, outcome_bind,
    hjoin.operand_eq, hright, Option.bind_some, ← hjoin.operand_eq, hsame]
  simp only [List.reverse_append, List.reverse_cons, List.append_assoc, List.cons_append,
    List.nil_append]
  -- the turns that are left are more than the tokens that are left
  refine outcome_chainFrom_eq ?_ ?_ ?_
  · show after.length < _
    simp only [List.length_cons, List.length_append]
    omega
  · exact Nat.lt_succ_self _
  · show after.length ≤ n
    omega

/-! ## Leaves -/

section

variable {read : Goal → Reader Expr} {s : Setting} {p q : Progress} {e : Expr}

/-- Without a bracket or a dot no suffix follows. -/
theorem outcome_suffixesFrom (n : Nat) (e : Expr)
    (h : p.cursor.kind ≠ .openSquare ∧ p.cursor.kind ≠ .dot ∧ p.cursor.kind ≠ .openParen) :
    outcome (suffixesFrom read (n + 1) e) s p = some (e, p) := by
  -- `suffix?` only looks at the kind of the next token
  have hnone : outcome (suffix? read e).run s p = some (.ok none, p) := by
    rw [suffix?, Attempt.outcome_peek_bind]
    split
    · exact absurd ‹_› h.1
    · exact absurd ‹_› h.2.1
    · exact absurd ‹_› h.2.2
    · rfl
  rw [suffixesFrom, outcome_bind, hnone]
  rfl

theorem outcome_suffixed (hleaf : outcome (leaf read) s p = some (e, q))
    (h : q.cursor.kind ≠ .openSquare ∧ q.cursor.kind ≠ .dot ∧ q.cursor.kind ≠ .openParen) :
    outcome (suffixed read) s p = some (e, q) := by
  rw [suffixed, outcome_bind, hleaf, Option.bind_some, outcome_bind, outcome_remaining,
    Option.bind_some, outcome_suffixesFrom _ _ h]

theorem begins_ne {kind : TokenKind} (h : begins kind = true) :
    kind ≠ .finish ∧ kind ≠ .semicolon ∧ kind ≠ .forWord ∧ kind ≠ .ifWord ∧ kind ≠ .closeParen := by
  refine ⟨?_, ?_, ?_, ?_, ?_⟩ <;> rintro rfl <;> cases h

/-- An expression alone is a statement, and a sequence that ends behind it. -/
theorem outcome_sequence {terminator : Option TokenKind} (hbegins : begins p.cursor.kind = true)
    (hterminator : terminator = none ∨ terminator = some .closeParen)
    (he : outcome (conditional read) s p = some (e, q))
    (hq : q.cursor.kind = terminator.getD .finish) :
    outcome (sequence read terminator) s p = some (e, q) := by
  obtain ⟨hfinish, hsemicolon, hfor, -, hclose⟩ := begins_ne hbegins
  have hkind : some p.cursor.kind ≠ terminator := by
    rcases hterminator with rfl | rfl
    · nofun
    · simpa using hclose
  -- no assignment sign follows
  have hstatement : outcome (statement read) s p = some (e, q) := by
    rw [statement, outcome_bind, outcome_peek, Option.bind_some, if_neg hfor, outcome_bind, he,
      Option.bind_some, outcome_bind, outcome_here, Option.bind_some, hq]
    rcases hterminator with rfl | rfl <;> rfl
  -- the end of the sequence follows, so nothing is skipped
  have hwhole : outcome (wholeStatement read terminator) s p = some (e, q) := by
    rw [wholeStatement, outcome_bind, hstatement, Option.bind_some, outcome_bind, outcome_peek,
      Option.bind_some, hq]
    rcases hterminator with rfl | rfl <;> rfl
  have hturn : outcome (turn read terminator none false) s p = some (.last (some e), q) := by
    rw [turn, outcome_bind, outcome_peek, Option.bind_some,
      if_neg (by simp [hfinish, hkind]), if_neg hsemicolon, outcome_bind, hwhole, Option.bind_some,
      outcome_bind, outcome_peek, Option.bind_some, hq]
    rcases hterminator with rfl | rfl <;> rfl
  rw [sequence, outcome_bind, outcome_remaining, Option.bind_some, outcome_bind, statementsFrom,
    outcome_bind, hturn]
  rfl

/-- Parentheses that no arrow follows stand around a sequence. -/
theorem outcome_parenthesized (harrow : ∀ t ∈ p.cursor.rest, t.kind ≠ .arrow)
    (he : outcome (read (.sequence (some .closeParen))) { s with pairs := true } p.advanced =
      some (e, q)) (hq : q.cursor.kind = .closeParen) :
    outcome (parenthesized read).run s p = some (.ok e, q.advanced) := by
  -- behind the closing bracket no arrow is found, so these are no parameters
  have hgroup : (Cursor.groupAt? p.cursor.rest).filter (·.followedBy .arrow) = none := by
    rw [Option.filter_eq_none_iff]
    intro g hg hfollowed
    obtain ⟨t, after, hafter, hkind⟩ := Cursor.Group.followedBy_iff.1 hfollowed
    have hmem : t ∈ p.cursor.rest := by
      rw [Cursor.groupAt?_parts hg, hafter]
      simp
    exact harrow t hmem hkind
  rw [parenthesized, Attempt.outcome_here_bind, hgroup]
  show outcome (liftM advance >>= _ : Attempt Expr).run s p = _
  rw [Attempt.outcome_bind, Attempt.outcome_lift, outcome_advance]
  show outcome (liftM (withPairs (read (.sequence (some .closeParen)))) >>= _ : Attempt Expr).run s
    p.advanced = _
  rw [Attempt.outcome_bind, Attempt.outcome_lift, outcome_withPairs, he]
  show outcome (Attempt.expect .closeParen .parenthesisEnd >>= _ : Attempt Expr).run s q = _
  rw [Attempt.outcome_bind, Attempt.outcome_expect, if_pos hq]
  rfl

/-- Without an `if`, an expression that no question mark follows is no condition. -/
theorem outcome_conditional (hif : p.cursor.kind ≠ .ifWord)
    (he : outcome (disjunction read) s p = some (e, q)) (hq : q.cursor.kind ≠ .question) :
    outcome (conditional read) s p = some (e, q) := by
  rw [conditional, outcome_bind, outcome_here, Option.bind_some, if_neg (by simp [hif]),
    outcome_bind, he, Option.bind_some, outcome_bind, outcome_consumeIf, if_neg hq]
  rfl

/-- A condition with its two branches. -/
theorem outcome_ternary {test yes no : Expr} {q₁ q₂ q₃ : Progress}
    (hif : p.cursor.kind ≠ .ifWord) (htest : outcome (disjunction read) s p = some (test, q₁))
    (hquestion : q₁.cursor.kind = .question)
    (hyes : outcome (read .conditional) { s with pairs := false } q₁.advanced = some (yes, q₂))
    (hcolon : q₂.cursor.kind = .colon)
    (hno : outcome (read .conditional) s q₂.advanced = some (no, q₃)) :
    outcome (conditional read) s p = some (.ternary test yes no, q₃) := by
  have hbranches : outcome (ternary read test).run s q₁.advanced =
      some (.ok (.ternary test yes no), q₃) := by
    rw [ternary, Attempt.outcome_bind, Attempt.outcome_lift, outcome_withoutPairs, hyes]
    show outcome (Attempt.expect .colon .ternary >>= _ : Attempt Expr).run s q₂ = _
    rw [Attempt.outcome_bind, Attempt.outcome_expect, if_pos hcolon]
    show outcome (liftM (read .conditional) >>= _ : Attempt Expr).run s q₂.advanced = _
    rw [Attempt.outcome_bind, Attempt.outcome_lift, hno]
    rfl
  rw [conditional, outcome_bind, outcome_here, Option.bind_some, if_neg (by simp [hif]),
    outcome_bind, htest, Option.bind_some, outcome_bind, outcome_consumeIf, if_pos hquestion,
    Option.bind_some, if_pos rfl, outcome_settle, hbranches]
  rfl

end

/-! ## Each way to write -/

theorem outcome_leaf (read : Goal → Reader Expr) (s : Setting) (before rest : List Token)
    (t : Token) (ms : List String) :
    outcome (leaf read) s ⟨⟨before, t :: rest⟩, ms⟩ =
      outcome (leafAt read ⟨before, t :: rest⟩ t) s ⟨⟨before, t :: rest⟩, ms⟩ := rfl

theorem Reads.number {n : Integer} (hn : 0 ≤ n) :
    Reads .leaf (.number n) [.numeral n.toInt.toNat] := by
  intro k s before ts after ms hts hstops _ _
  obtain ⟨t, rfl, ht⟩ := List.map_eq_singleton_iff.mp hts
  have hkind : t.kind = .integer := congrArg Word.kind ht
  have htext : t.text = Decimal.text n.toInt.toNat := congrArg Word.text ht
  refine outcome_suffixed (q := ⟨⟨t :: before, after⟩, ms⟩) ?_ (kind_mk _ after ▸ hstops.suffix)
  rw [List.singleton_append, outcome_leaf]
  simp only [leafAt, hkind, htext, Integer.read?_numeral hn, outcome_bind, outcome_advance,
    Option.bind_some, outcome_pure]
  rfl

theorem Reads.var {name : String} : Reads .leaf (.var name) [.identifier name] := by
  intro k s before ts after ms hts hstops _ _
  obtain ⟨t, rfl, ht⟩ := List.map_eq_singleton_iff.mp hts
  have hkind : t.kind = .identifier := congrArg Word.kind ht
  have htext : t.text = name := congrArg Word.text ht
  have hadvanced : Progress.advanced ⟨⟨before, t :: after⟩, ms⟩ = ⟨⟨t :: before, after⟩, ms⟩ := rfl
  refine outcome_suffixed (q := ⟨⟨t :: before, after⟩, ms⟩) ?_ (kind_mk _ after ▸ hstops.suffix)
  rw [List.singleton_append, outcome_leaf]
  simp only [leafAt, hkind, htext, outcome_bind, outcome_advance, Option.bind_some, hadvanced,
    outcome_peek, kind_mk, if_neg hstops.suffix.2.2, outcome_pure]

/-- The first token of an expression. -/
theorem Printed.first_token {l : Level} {e : Expr} {ws : List Word} (h : Printed l e ws)
    {ts : List Token} (hts : ts.map Token.word = ws) (after : List Token) :
    Grammar.begins (kindOf (ts ++ after)) = true := by
  obtain ⟨w, rest, rfl, hw⟩ := h.begins
  obtain ⟨t, ts, rfl, rfl, -⟩ := List.map_eq_cons_iff.mp hts
  exact hw

theorem Reads.parentheses {e : Expr} {ws : List Word} (hprinted : Printed .conditional e ws)
    (he : Reads .conditional e ws) :
    Reads .leaf e (.mark .openParen :: (ws ++ [.mark .closeParen])) := by
  intro n s before ts after ms hts hstops harrow hn
  obtain ⟨t, tail, rfl, ht, htail⟩ := List.map_eq_cons_iff.mp hts
  obtain ⟨inner, last, rfl, hinner, hlast⟩ := List.map_eq_append_iff.mp htail
  obtain ⟨u, rfl, hu⟩ := List.map_eq_singleton_iff.mp hlast
  have hopen : t.kind = .openParen := congrArg Word.kind ht
  have hclose : u.kind = .closeParen := congrArg Word.kind hu
  simp only [List.cons_append, List.append_assoc, List.nil_append, List.length_cons,
    List.length_append] at hn ⊢
  -- the expression inside is read with one construct less
  obtain ⟨n, rfl⟩ : ∃ i, n = i + 1 := ⟨n - 1, by omega⟩
  have hnext : ∀ v ∈ u :: after, v.kind ≠ .arrow :=
    List.forall_mem_cons.2 ⟨by simp [hclose], harrow⟩
  have hall : ∀ v ∈ t :: (inner ++ u :: after), v.kind ≠ .arrow :=
    ne_arrow_cons (by simp [hopen]) hinner hprinted.ne_arrow hnext
  have hkind : kindOf (u :: after) = .closeParen := hclose
  have hread := he n { s with pairs := true } (t :: before) inner (u :: after) ms hinner
    (hkind ▸ .closeParen true .conditional) hnext
    (by simp only [List.length_append, List.length_cons]; omega)
  have hsequence : outcome (readWithin (n + 1) (.sequence (some .closeParen)))
      { s with pairs := true } ⟨⟨t :: before, inner ++ u :: after⟩, ms⟩ =
      some (e, ⟨⟨inner.reverse ++ t :: before, u :: after⟩, ms⟩) := by
    refine outcome_sequence ?_ (.inr rfl) hread ?_
    · rw [kind_mk]
      exact hprinted.first_token hinner _
    · rw [kind_mk, hkind]
      rfl
  have hparenthesized : outcome (parenthesized (readWithin (n + 1))).run s
      ⟨⟨before, t :: (inner ++ u :: after)⟩, ms⟩ =
      some (.ok e, ⟨⟨u :: (inner.reverse ++ t :: before), after⟩, ms⟩) :=
    outcome_parenthesized (q := ⟨⟨inner.reverse ++ t :: before, u :: after⟩, ms⟩) hall hsequence
      hclose
  -- a closing bracket is behind it, and what stops the leaf is behind the bracket
  have hbefore : (t :: (inner ++ [u])).reverse ++ before = u :: (inner.reverse ++ t :: before) := by
    simp
  rw [hbefore]
  refine outcome_suffixed ?_ ?_
  · rw [outcome_leaf]
    simp only [leafAt, hopen, outcome_settle, hparenthesized]
    rfl
  · rw [kind_mk]
    exact hstops.suffix

theorem Reads.unary (op : UnaryOp) {e : Expr} {ws : List Word} (he : Reads .unary e ws) :
    Reads .unary (.unary op e) (.mark (unaryMark op) :: ws) := by
  intro n s before ts after ms hts hstops harrow hn
  obtain ⟨t, ts, rfl, ht, htail⟩ := List.map_eq_cons_iff.mp hts
  have hkind : t.kind = unaryMark op := congrArg Word.kind ht
  have hmark : unary? (unaryMark op) = some (.unary op) := by cases op <;> rfl
  simp only [List.cons_append, List.length_cons, List.length_append] at hn ⊢
  obtain ⟨n, rfl⟩ : ∃ i, n = i + 1 := ⟨n - 1, by omega⟩
  have hread := he n s (t :: before) ts after ms htail hstops harrow
    (by rw [List.length_append]; omega)
  have hadvanced : Progress.advanced ⟨⟨before, t :: (ts ++ after)⟩, ms⟩ =
      ⟨⟨t :: before, ts ++ after⟩, ms⟩ := rfl
  have hnested : outcome (readWithin (n + 1) .unary) s ⟨⟨t :: before, ts ++ after⟩, ms⟩ =
      some (e, ⟨⟨ts.reverse ++ t :: before, after⟩, ms⟩) := hread
  show outcome (Grammar.unary (readWithin (n + 1))) s _ = _
  rw [Grammar.unary, outcome_bind, outcome_peek, Option.bind_some, kind_mk]
  simp only [kindOf, List.head?_cons, Option.map_some, Option.getD_some, hkind, hmark, outcome_bind,
    outcome_advance, Option.bind_some, hadvanced, hnested, outcome_pure]
  simp

/-- A leaf does not begin with the mark of an operator. -/
theorem Printed.leaf_begins {e : Expr} {ws : List Word} (h : Printed .leaf e ws) :
    ∃ w rest, ws = w :: rest ∧ unary? w.kind = none ∧ w.kind ≠ .dollar := by
  generalize hl : Level.leaf = l at h
  induction h with
  | number hn => exact ⟨_, _, rfl, rfl, nofun⟩
  | var hname => exact ⟨_, _, rfl, rfl, nofun⟩
  | parentheses he ih => exact ⟨_, _, rfl, rfl, nofun⟩
  | unary op he ih => cases hl
  | joined hjoin ha hb iha ihb =>
    subst hl
    cases hjoin
  | ternary htest hyes hno ihtest ihyes ihno => cases hl
  | looser he ih =>
    subst hl
    exact ih rfl

theorem Reads.unary_of_leaf {e : Expr} {ws : List Word} (hprinted : Printed .leaf e ws)
    (he : Reads .leaf e ws) : Reads .unary e ws := by
  intro n s before ts after ms hts hstops harrow hn
  have hread := he n s before ts after ms hts hstops.tighter harrow hn
  obtain ⟨w, rest, rfl, hunary, hdollar⟩ := hprinted.leaf_begins
  obtain ⟨t, ts, rfl, rfl, -⟩ := List.map_eq_cons_iff.mp hts
  have hkind : kindOf (t :: ts ++ after) = t.word.kind := rfl
  show outcome (Grammar.unary (readWithin n)) s _ = _
  rw [Grammar.unary, outcome_bind, outcome_peek, Option.bind_some, kind_mk, hkind]
  simp only [hunary, if_neg hdollar]
  exact hread

theorem Reads.pair_of_unary {e : Expr} {ws : List Word} (he : Reads .unary e ws) :
    Reads .pair e ws := by
  intro n s before ts after ms hts hstops harrow hn
  have hread : outcome (Grammar.unary (readWithin n)) s ⟨⟨before, ts ++ after⟩, ms⟩ = _ :=
    he n s before ts after ms hts hstops.tighter harrow hn
  -- where pairs are read, a colon would not have stopped the expression
  have hcolon : ¬(s.pairs && decide (kindOf after = .colon)) = true := by
    intro hpair
    obtain ⟨hpairs, hkind⟩ := Bool.and_eq_true_iff.mp hpair
    rw [hstops.colon (of_decide_eq_true hkind)] at hpairs
    cases hpairs
  show outcome (Grammar.pair (readWithin n)) s _ = _
  rw [Grammar.pair, outcome_bind, hread, Option.bind_some, outcome_bind, outcome_setting,
    Option.bind_some, outcome_bind, outcome_peek, Option.bind_some, kind_mk, if_neg hcolon]
  rfl

theorem Reads.conditional_of_disjunction {e : Expr} {ws : List Word}
    (hprinted : Printed .disjunction e ws) (he : Reads .disjunction e ws) :
    Reads .conditional e ws := by
  intro n s before ts after ms hts hstops harrow hn
  refine outcome_conditional ?_ (he n s before ts after ms hts hstops.tighter harrow hn) ?_
  · rw [kind_mk]
    exact (begins_ne (hprinted.first_token hts after)).2.2.2.1
  · rw [kind_mk]
    exact hstops.question rfl

theorem Reads.ternary {test yes no : Expr} {xs ys zs : List Word}
    (hprinted : Printed .disjunction test xs) (hys : ∀ w ∈ ys, w.kind ≠ .arrow)
    (hzs : ∀ w ∈ zs, w.kind ≠ .arrow) (htest : Reads .disjunction test xs)
    (hyes : Reads .conditional yes ys) (hno : Reads .conditional no zs) :
    Reads .conditional (.ternary test yes no)
      (xs ++ .mark .question :: (ys ++ .mark .colon :: zs)) := by
  intro n s before ts after ms hts hstops harrow hn
  obtain ⟨ts₁, tail, rfl, h₁, htail⟩ := List.map_eq_append_iff.mp hts
  obtain ⟨t, tail, rfl, ht, htail⟩ := List.map_eq_cons_iff.mp htail
  obtain ⟨ts₂, tail, rfl, h₂, htail⟩ := List.map_eq_append_iff.mp htail
  obtain ⟨u, ts₃, rfl, hu, h₃⟩ := List.map_eq_cons_iff.mp htail
  have hquestion : t.kind = .question := congrArg Word.kind ht
  have hcolon : u.kind = .colon := congrArg Word.kind hu
  have harrow₂ : ∀ v ∈ u :: (ts₃ ++ after), v.kind ≠ .arrow :=
    ne_arrow_cons (by simp [hcolon]) h₃ hzs harrow
  have harrow₁ : ∀ v ∈ t :: (ts₂ ++ u :: (ts₃ ++ after)), v.kind ≠ .arrow :=
    ne_arrow_cons (by simp [hquestion]) h₂ hys harrow₂
  simp only [List.cons_append, List.append_assoc, List.length_cons, List.length_append] at hn ⊢
  obtain ⟨n, rfl⟩ : ∃ i, n = i + 1 := ⟨n - 1, by omega⟩
  have hkind₁ : kindOf (t :: (ts₂ ++ u :: (ts₃ ++ after))) = .question := hquestion
  have hkind₂ : kindOf (u :: (ts₃ ++ after)) = .colon := hcolon
  have hread₁ := htest (n + 1) s before ts₁ (t :: (ts₂ ++ u :: (ts₃ ++ after))) ms h₁
    (hkind₁ ▸ .before_question s.pairs) harrow₁
    (by simp only [List.length_append, List.length_cons]; omega)
  -- pairs are switched off in front of the colon of a condition
  have hread₂ := hyes n { s with pairs := false } (t :: (ts₁.reverse ++ before)) ts₂
    (u :: (ts₃ ++ after)) ms h₂ (hkind₂ ▸ .before_colon .conditional) harrow₂
    (by simp only [List.length_append, List.length_cons]; omega)
  have hread₃ := hno n s (u :: (ts₂.reverse ++ t :: (ts₁.reverse ++ before))) ts₃ after ms h₃ hstops
    harrow (by rw [List.length_append]; omega)
  have hbefore : (ts₁ ++ t :: (ts₂ ++ u :: ts₃)).reverse ++ before =
      ts₃.reverse ++ u :: (ts₂.reverse ++ t :: (ts₁.reverse ++ before)) := by simp
  rw [hbefore]
  refine outcome_ternary ?_ hread₁ (by rw [kind_mk, hkind₁]) hread₂ (by rw [kind_mk, hkind₂]) hread₃
  rw [kind_mk]
  exact (begins_ne (hprinted.first_token h₁ _)).2.2.2.1

/-! ## Every way to write -/

theorem Printed.reads_and_continues {l : Level} {e : Expr} {ws : List Word} (h : Printed l e ws) :
    Reads l e ws ∧ (l.isChain = true → Continues l e ws) := by
  induction h with
  | number hn => exact ⟨.number hn, nofun⟩
  | var hname => exact ⟨.var, nofun⟩
  | parentheses he ih => exact ⟨.parentheses he ih.1, nofun⟩
  | unary op he ih => exact ⟨.unary op ih.1, nofun⟩
  -- a chain grows by its last operand, so the left side has to continue and not only to read
  | joined hjoin ha hb iha ihb =>
    have hcontinues :=
      Continues.joined hjoin ha.plain (iha.2 hjoin.isChain) ihb.1 hb.ne_arrow
    exact ⟨hcontinues.reads, fun _ => hcontinues⟩
  | ternary htest hyes hno ihtest ihyes ihno =>
    exact ⟨.ternary htest hyes.ne_arrow hno.ne_arrow ihtest.1 ihyes.1 ihno.1, nofun⟩
  | @looser l e ws he ih =>
    cases hl : l.isChain with
    | true =>
      have hcontinues := ih.1.continues hl
      exact ⟨hcontinues.reads, fun _ => hcontinues⟩
    | false =>
      refine ⟨?_, nofun⟩
      cases l with
      | conditional => exact .conditional_of_disjunction he ih.1
      | pair => exact .pair_of_unary ih.1
      | unary => exact .unary_of_leaf he ih.1
      | leaf => exact ih.1
      | _ => cases hl

/-- A text that shows the words of an expression is read as that expression, without mistakes. -/
theorem parse_printed {e : Expr} {ws : List Word} {text : String}
    (h : Printed .conditional e ws) (htext : Token.Spaced ws text.toList) :
    Script.ofText text = ⟨e, []⟩ := by
  have hwords := Token.scan_spaced htext h.spelled
  generalize htokens : (Token.lex text.toList).1 = tokens at hwords
  have hread := h.reads_and_continues.1 tokens.length ⟨text.toList, true⟩ [] tokens [] []
    hwords (.finish true .conditional) nofun (by rw [List.append_nil])
  rw [List.append_nil] at hread
  have hsequence : outcome (readWithin (tokens.length + 1) (.sequence none)) ⟨text.toList, true⟩
      ⟨.ofTokens tokens, []⟩ = some (e, ⟨⟨tokens.reverse ++ [], []⟩, []⟩) := by
    refine outcome_sequence ?_ (.inl rfl) hread rfl
    have hfirst := h.first_token hwords []
    rw [List.append_nil] at hfirst
    exact (kind_mk [] tokens).symm ▸ hfirst
  show (Script.ofTokensWithin? ((Token.lex text.toList).1.length + 1) text.toList
    (Token.lex text.toList).1).getD _ = _
  rw [htokens, Script.ofTokensWithin?_eq, hsequence]
  rfl

end DiceScript.Grammar
