import DiceScript.Expr
import DiceScript.Token.Scan
import Mathlib

/-!
How expressions are written. Every operator has a level, and an operand from a looser level stands
in parentheses; more parentheses may stand around any part. Operators of one level group from the
left, conditions from the right.
-/

namespace DiceScript

/-- A token apart from where it stands. -/
structure Word where
  kind : TokenKind
  text : String
  deriving DecidableEq, Repr

namespace Word

/-- The word of a kind that has one spelling. -/
def mark (kind : TokenKind) : Word := ⟨kind, kind.spelling⟩

/-- The word of a number. -/
def numeral (n : Nat) : Word := ⟨.integer, Decimal.text n⟩

/-- The word of a variable. -/
def identifier (name : String) : Word := ⟨.identifier, name⟩

end Word

/-- The token as a word. -/
def Token.word (t : Token) : Word := ⟨t.kind, t.text⟩

namespace Grammar

/-! ## Levels -/

/-- The levels of expressions, from the loosest binding to the tightest. -/
inductive Level
  | conditional
  | disjunction
  | conjunction
  | bonusOfStat
  | equality
  | relation
  | arrayOperation
  | sum
  | product
  | pair
  | unary
  | leaf
  deriving DecidableEq, Repr

namespace Level

/-- The next tighter level. -/
def tighter : Level → Level
  | conditional => disjunction
  | disjunction => conjunction
  | conjunction => bonusOfStat
  | bonusOfStat => equality
  | equality => relation
  | relation => arrayOperation
  | arrayOperation => sum
  | sum => product
  | product => pair
  | pair => unary
  | unary | leaf => leaf

/-- The number of levels above a level. -/
def rank : Level → Nat
  | conditional => 0
  | disjunction => 1
  | conjunction => 2
  | bonusOfStat => 3
  | equality => 4
  | relation => 5
  | arrayOperation => 6
  | sum => 7
  | product => 8
  | pair => 9
  | unary => 10
  | leaf => 11

end Level

/-- The operators between two operands: the level, the mark, and how it joins the operands. -/
inductive Joins : Level → TokenKind → (Expr → Expr → Expr) → Prop
  | or : Joins .disjunction .orOr (.binary .or)
  | and : Joins .conjunction .andAnd (.binary .and)
  | equal : Joins .equality .equalEqual (.binary .equal)
  | unequal : Joins .equality .notEqual (.binary .unequal)
  | range : Joins .equality .dotDot (.binary .range)
  | hasFlag : Joins .equality .ampersand (.binary .hasFlag)
  | less : Joins .relation .openAngle (.binary .less)
  | greater : Joins .relation .closeAngle (.binary .greater)
  | lessEqual : Joins .relation .lessEqual (.binary .lessEqual)
  | greaterEqual : Joins .relation .greaterEqual (.binary .greaterEqual)
  | push : Joins .arrayOperation .shiftLeft (.shift .push)
  | pull : Joins .arrayOperation .shiftRight (.shift .pull)
  | append : Joins .arrayOperation .shiftRightStar (.shift .append)
  | arrange : Joins .arrayOperation .diamond (.shift .arrange)
  | add : Joins .sum .plus (.binary .add)
  | subtract : Joins .sum .minus (.binary .subtract)
  | multiply : Joins .product .star (.binary .multiply)
  | divide : Joins .product .slash (.binary .divide)
  | remainder : Joins .product .percent (.binary .remainder)

/-- The mark in front of an operand. -/
def unaryMark : UnaryOp → TokenKind
  | .negate => .minus
  | .not => .exclamation
  | .stringify => .percent
  | .baseOf => .atSign

/-- The marks that expressions are written with. -/
def printedMarks : List TokenKind := [
  .openParen, .closeParen, .question, .colon, .exclamation, .atSign, .orOr, .andAnd, .equalEqual,
  .notEqual, .dotDot, .ampersand, .openAngle, .closeAngle, .lessEqual, .greaterEqual, .shiftLeft,
  .shiftRight, .shiftRightStar, .diamond, .plus, .minus, .star, .slash, .percent]

theorem Joins.mem_printedMarks {l : Level} {kind : TokenKind} {join : Expr → Expr → Expr}
    (h : Joins l kind join) : kind ∈ printedMarks := by cases h <;> decide

theorem unaryMark_mem_printedMarks (op : UnaryOp) : unaryMark op ∈ printedMarks := by
  cases op <;> decide

/-! ## Expressions and their words -/

/-- A name that is read as one identifier. -/
def IsName (name : String) : Prop :=
  (Token.tokenize name).map (List.map Token.word) = some [.identifier name, ⟨.finish, ""⟩]

instance (name : String) : Decidable (IsName name) := inferInstanceAs (Decidable (_ = _))

/-- The expressions made of numbers that are not negative, variables, operators and conditions. -/
inductive Plain : Expr → Prop
  | number {n : Integer} (hn : 0 ≤ n) : Plain (.number n)
  | var {name : String} (hname : IsName name) : Plain (.var name)
  | unary (op : UnaryOp) {e : Expr} (he : Plain e) : Plain (.unary op e)
  | joined {l : Level} {kind : TokenKind} {join : Expr → Expr → Expr} {a b : Expr}
      (hjoin : Joins l kind join) (ha : Plain a) (hb : Plain b) : Plain (join a b)
  | ternary {test yes no : Expr} (htest : Plain test) (hyes : Plain yes) (hno : Plain no) :
      Plain (.ternary test yes no)

/-- The ways to write an expression where one of a level may stand. -/
inductive Printed : Level → Expr → List Word → Prop
  | number {n : Integer} (hn : 0 ≤ n) :
      Printed .leaf (.number n) [.numeral n.toInt.toNat]
  | var {name : String} (hname : IsName name) :
      Printed .leaf (.var name) [.identifier name]
  | parentheses {e : Expr} {ws : List Word} (he : Printed .conditional e ws) :
      Printed .leaf e (.mark .openParen :: (ws ++ [.mark .closeParen]))
  | unary (op : UnaryOp) {e : Expr} {ws : List Word} (he : Printed .unary e ws) :
      Printed .unary (.unary op e) (.mark (unaryMark op) :: ws)
  | joined {l : Level} {kind : TokenKind} {join : Expr → Expr → Expr} {a b : Expr}
      {xs ys : List Word} (hjoin : Joins l kind join) (ha : Printed l a xs)
      (hb : Printed l.tighter b ys) : Printed l (join a b) (xs ++ .mark kind :: ys)
  | ternary {test yes no : Expr} {xs ys zs : List Word} (htest : Printed .disjunction test xs)
      (hyes : Printed .conditional yes ys) (hno : Printed .conditional no zs) :
      Printed .conditional (.ternary test yes no)
        (xs ++ .mark .question :: (ys ++ .mark .colon :: zs))
  | looser {l : Level} {e : Expr} {ws : List Word} (he : Printed l.tighter e ws) : Printed l e ws

namespace Printed

variable {l : Level} {e : Expr} {ws : List Word}

theorem loosen (k : Nat) (h : Printed (Nat.repeat Level.tighter k l) e ws) : Printed l e ws := by
  induction k with
  | zero => exact h
  | succ k ih => exact ih (.looser h)

/-- A leaf may stand anywhere. -/
theorem of_leaf (h : Printed .leaf e ws) (l : Level) : Printed l e ws := by
  have hleaf : Nat.repeat Level.tighter 11 l = .leaf := by cases l <;> rfl
  exact loosen 11 (hleaf ▸ h)

/-- Where any expression may stand, one of every level may. -/
theorem to_conditional (h : Printed l e ws) : Printed .conditional e ws := by
  have hlevel : Nat.repeat Level.tighter l.rank .conditional = l := by cases l <;> rfl
  exact loosen l.rank (hlevel.symm ▸ h)

end Printed

/-- Every expression of numbers, variables, operators and conditions can be written at every
level. -/
theorem Plain.exists_printed {e : Expr} (h : Plain e) (l : Level) : ∃ ws, Printed l e ws := by
  induction h generalizing l with
  | number hn => exact ⟨_, (Printed.number hn).of_leaf l⟩
  | var hname => exact ⟨_, (Printed.var hname).of_leaf l⟩
  | unary op he ih =>
    obtain ⟨ws, hws⟩ := ih .unary
    exact ⟨_, (Printed.parentheses (Printed.unary op hws).to_conditional).of_leaf l⟩
  | @joined level kind join a b hjoin ha hb iha ihb =>
    obtain ⟨xs, hxs⟩ := iha level
    obtain ⟨ys, hys⟩ := ihb level.tighter
    exact ⟨_, (Printed.parentheses (Printed.joined hjoin hxs hys).to_conditional).of_leaf l⟩
  | ternary htest hyes hno ihtest ihyes ihno =>
    obtain ⟨xs, hxs⟩ := ihtest .disjunction
    obtain ⟨ys, hys⟩ := ihyes .conditional
    obtain ⟨zs, hzs⟩ := ihno .conditional
    exact ⟨_, (Printed.parentheses (.ternary hxs hys hzs)).of_leaf l⟩

theorem Printed.plain {l : Level} {e : Expr} {ws : List Word} (h : Printed l e ws) : Plain e := by
  induction h with
  | number hn => exact .number hn
  | var hname => exact .var hname
  | parentheses he ih => exact ih
  | unary op he ih => exact .unary op ih
  | joined hjoin ha hb iha ihb => exact .joined hjoin iha ihb
  | ternary htest hyes hno ihtest ihyes ihno => exact .ternary ihtest ihyes ihno
  | looser he ih => exact ih

/-- The kinds of words that an expression begins with. -/
def begins : TokenKind → Bool
  | .integer | .identifier | .string | .openParen | .openSquare | .minus | .exclamation | .percent
  | .atSign | .pound => true
  | _ => false

theorem Printed.begins {l : Level} {e : Expr} {ws : List Word} (h : Printed l e ws) :
    ∃ w rest, ws = w :: rest ∧ Grammar.begins w.kind = true := by
  induction h with
  | number hn => exact ⟨_, _, rfl, rfl⟩
  | var hname => exact ⟨_, _, rfl, rfl⟩
  | parentheses he ih => exact ⟨_, _, rfl, rfl⟩
  | unary op he ih => exact ⟨_, _, rfl, by cases op <;> rfl⟩
  | joined hjoin ha hb iha ihb =>
    obtain ⟨w, rest, rfl, hw⟩ := iha
    exact ⟨w, _, rfl, hw⟩
  | ternary htest hyes hno ihtest ihyes ihno =>
    obtain ⟨w, rest, rfl, hw⟩ := ihtest
    exact ⟨w, _, rfl, hw⟩
  | looser he ih => exact ih

/-- What holds of numerals, names and marks holds of all words of an expression. -/
theorem Printed.forall_word {P : Word → Prop} (hnumeral : ∀ n, P (.numeral n))
    (hidentifier : ∀ name, IsName name → P (.identifier name))
    (hmark : ∀ kind ∈ printedMarks, P (.mark kind)) {l : Level} {e : Expr} {ws : List Word}
    (h : Printed l e ws) : ∀ w ∈ ws, P w := by
  induction h with
  | number hn => simpa using hnumeral _
  | var hname => simpa using hidentifier _ hname
  | parentheses he ih =>
    intro w hw
    simp only [List.mem_cons, List.mem_append, List.not_mem_nil, or_false] at hw
    rcases hw with rfl | hw | rfl
    · exact hmark _ (by decide)
    · exact ih w hw
    · exact hmark _ (by decide)
  | unary op he ih =>
    intro w hw
    rcases List.mem_cons.mp hw with rfl | hw
    · exact hmark _ (unaryMark_mem_printedMarks op)
    · exact ih w hw
  | joined hjoin ha hb iha ihb =>
    intro w hw
    simp only [List.mem_append, List.mem_cons] at hw
    rcases hw with hw | rfl | hw
    · exact iha w hw
    · exact hmark _ hjoin.mem_printedMarks
    · exact ihb w hw
  | ternary htest hyes hno ihtest ihyes ihno =>
    intro w hw
    simp only [List.mem_append, List.mem_cons] at hw
    rcases hw with hw | rfl | hw | rfl | hw
    · exact ihtest w hw
    · exact hmark _ (by decide)
    · exact ihyes w hw
    · exact hmark _ (by decide)
    · exact ihno w hw
  | looser he ih => exact ih

theorem printedMarks_ne_arrow : ∀ kind ∈ printedMarks, kind ≠ .arrow := by decide

theorem Printed.ne_arrow {l : Level} {e : Expr} {ws : List Word} (h : Printed l e ws) :
    ∀ w ∈ ws, w.kind ≠ .arrow :=
  h.forall_word (fun _ => by simp [Word.numeral]) (fun _ _ => by simp [Word.identifier])
    printedMarks_ne_arrow

end Grammar

end DiceScript
