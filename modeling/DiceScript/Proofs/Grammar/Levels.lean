import DiceScript.Proofs.Grammar.RoundTrip
import DiceScript.Proofs.Grammar.Safety

/-!
From level to level. What is read at one level is read at every looser one, if what follows it is no
operator, and a text that is read so up to its end is that expression.
-/

namespace DiceScript.Grammar

open Reader Operators

variable {read : Goal → Reader Expr} {s : Setting} {p q : Progress} {e : Expr}

/-- An expression of the next tighter level that no operator follows. -/
theorem outcome_looser {l : Level} (hl : l.isChain = true)
    (h : outcome (l.tighter.reader read) s p = some (e, q))
    (hq : l.operators q.cursor.kind = none) : outcome (l.reader read) s p = some (e, q) := by
  rw [Level.reader_eq_chain hl, chain, outcome_bind, h, Option.bind_some, outcome_bind,
    outcome_remaining, Option.bind_some, chainFrom, outcome_bind, outcome_peek, Option.bind_some,
    hq]
  rfl

theorem outcome_disjunction_of_equality (h : outcome (equality read) s p = some (e, q))
    (hq : ∀ l : Level, l.operators q.cursor.kind = none) :
    outcome (disjunction read) s p = some (e, q) := by
  have hbonus : outcome (bonusOfStat read) s p = some (e, q) :=
    outcome_looser (l := .bonusOfStat) rfl h (hq _)
  have hconjunction : outcome (conjunction read) s p = some (e, q) :=
    outcome_looser (l := .conjunction) rfl hbonus (hq _)
  exact outcome_looser (l := .disjunction) rfl hconjunction (hq _)

theorem outcome_relation_of_pair (h : outcome (pair read) s p = some (e, q))
    (hq : ∀ l : Level, Level.relation.rank ≤ l.rank → l.operators q.cursor.kind = none) :
    outcome (relation read) s p = some (e, q) := by
  have hproduct : outcome (product read) s p = some (e, q) :=
    outcome_looser (l := .product) rfl h (hq _ (by decide))
  have hsum : outcome (sum read) s p = some (e, q) :=
    outcome_looser (l := .sum) rfl hproduct (hq _ (by decide))
  have hoperation : outcome (arrayOperation read) s p = some (e, q) :=
    outcome_looser (l := .arrayOperation) rfl hsum (hq _ (by decide))
  exact outcome_looser (l := .relation) rfl hoperation (hq _ (by decide))

theorem outcome_disjunction_of_pair (h : outcome (pair read) s p = some (e, q))
    (hq : ∀ l : Level, l.operators q.cursor.kind = none) :
    outcome (disjunction read) s p = some (e, q) := by
  have hrelation := outcome_relation_of_pair h fun l _ => hq l
  have hequality : outcome (equality read) s p = some (e, q) :=
    outcome_looser (l := .equality) rfl hrelation (hq _)
  exact outcome_disjunction_of_equality hequality hq

theorem outcome_unary_of_suffixed (hunary : unary? p.cursor.kind = none)
    (hdollar : p.cursor.kind ≠ .dollar) (h : outcome (suffixed read) s p = some (e, q)) :
    outcome (unary read) s p = some (e, q) := by
  rw [unary, outcome_bind, outcome_peek, Option.bind_some]
  simp only [hunary, if_neg hdollar]
  exact h

/-- The mark of an operator in front of its operand. -/
theorem outcome_unary_of_mark {apply : Expr → Expr} (hmark : unary? p.cursor.kind = some apply)
    (h : outcome (read .unary) s p.advanced = some (e, q)) :
    outcome (unary read) s p = some (apply e, q) := by
  rw [unary, outcome_bind, outcome_peek, Option.bind_some]
  simp only [hmark, outcome_bind, outcome_advance, Option.bind_some, h, outcome_pure]

theorem outcome_pair_of_unary (h : outcome (unary read) s p = some (e, q))
    (hcolon : s.pairs = true → q.cursor.kind ≠ .colon) :
    outcome (pair read) s p = some (e, q) := by
  have hno : ¬(s.pairs && decide (q.cursor.kind = .colon)) = true := by
    intro hpair
    obtain ⟨hpairs, hkind⟩ := Bool.and_eq_true_iff.1 hpair
    exact hcolon hpairs (of_decide_eq_true hkind)
  rw [pair, outcome_bind, h, Option.bind_some, outcome_bind, outcome_setting, Option.bind_some,
    outcome_bind, outcome_peek, Option.bind_some, if_neg hno]
  rfl

/-- A key, a colon and a value. -/
theorem outcome_pair_of_colon {r : Progress} {value : Expr} (hpairs : s.pairs = true)
    (hkey : outcome (unary read) s p = some (e, q)) (hcolon : q.cursor.kind = .colon)
    (hvalue : outcome (read .pair) s q.advanced = some (value, r)) :
    outcome (pair read) s p = some (.pair e value, r) := by
  have hpair : (s.pairs && decide (q.cursor.kind = .colon)) = true := by rw [hpairs, hcolon]; rfl
  rw [pair, outcome_bind, hkey, Option.bind_some, outcome_bind, outcome_setting, Option.bind_some,
    outcome_bind, outcome_peek, Option.bind_some, if_pos hpair]
  simp only [outcome_bind, outcome_advance, Option.bind_some, hvalue, outcome_pure]

/-- The tokens of a text are read as one expression up to their end. -/
theorem parse_eq_of_conditional {text : String} (hbegins : begins (kindOf (scanned text)) = true)
    (h : outcome (conditional (readWithin (scanned text).length)) ⟨text.toList, true⟩
      ⟨.ofTokens (scanned text), []⟩ = some (e, q)) (hq : q.cursor.rest = []) :
    Script.ofText text = ⟨e, q.mistakes⟩ := by
  have hkind : q.cursor.kind = .finish := by
    rw [Cursor.kind_eq, hq]
    rfl
  have hsequence : outcome (readWithin ((scanned text).length + 1) (.sequence none))
      ⟨text.toList, true⟩ ⟨.ofTokens (scanned text), []⟩ = some (e, q) :=
    outcome_sequence (kind_mk [] (scanned text) ▸ hbegins) (.inl rfl) h hkind
  show (Script.ofTokensWithin? ((scanned text).length + 1) text.toList (scanned text)).getD _ = _
  rw [Script.ofTokensWithin?_eq, hsequence]
  rfl

end DiceScript.Grammar
