import DiceScript.Grammar.Operators
import DiceScript.Grammar.Term

/-!
Operations: terms with operators, one rule for each level of precedence, and conditionals.
-/

namespace DiceScript.Grammar

open Reader Attempt Operators

variable (read : Goal → Reader Expr)

/-! ## Operators -/

def unary : Reader Expr := do
  let kind ← peek
  match unary? kind with
  | some apply =>
    advance
    return apply (← read .unary)
  | none =>
    if kind = .dollar then
      advance
      settle (bonus read)
    else suffixed read

def pair : Reader Expr := do
  let key ← unary read
  if (← readThe Setting).pairs && (← peek) = .colon then
    advance
    return .pair key (← read .pair)
  else return key

def product : Reader Expr := chain (pair read) (pair read) multiplicative?

def sum : Reader Expr := chain (product read) (product read) additive?

def arrayOperation : Reader Expr := chain (sum read) (sum read) shift?

def relation : Reader Expr := chain (arrayOperation read) (arrayOperation read) relational?

def equality : Reader Expr := chain (relation read) (relation read) equality?

/-- Reads the type that a bonus is asked for. A word alone is its name. -/
def askedType : Reader Expr := do
  match ← bareWord? with
  | some word => return .text word
  | none => equality read

def bonusOfStat : Reader Expr := chain (equality read) (askedType read) getBonus?

def conjunction : Reader Expr := chain (bonusOfStat read) (bonusOfStat read) conjunction?

def disjunction : Reader Expr := chain (conjunction read) (conjunction read) disjunction?

/-! ## Conditionals -/

/-- Whether an `if` in front of these tokens is the function of that name: it has a parenthesis
after it which no block follows. -/
def isIfCall (after : List Token) : Bool :=
  match after with
  | token :: _ =>
    token.kind = .openParen &&
      match Cursor.groupAt? after with
      | some g => !g.followedBy .openCurly
      | none => true
  | [] => false

/-- Reads conditions and blocks, of which the first `if` has been read. -/
def branchesFrom : Nat → Attempt Branches
  | 0 => exhausted
  | n + 1 => do
    let condition ← read .disjunction
    let body ← block read .ifCondition
    if ← consumeIf .elseWord then
      if ← consumeIf .ifWord then return .test condition body (← branchesFrom n)
      else return .test condition body (.otherwise (← block read .elseWord))
    else return .test condition body .done

/-- Reads an `if` with its branches. -/
def choice : Attempt Expr := do
  advance
  return .choice (← branchesFrom read ((← remaining) + 1))

/-- Reads what follows the question mark of a ternary. -/
def ternary (test : Expr) : Attempt Expr := do
  let yes ← withoutPairs (read .conditional)
  expect .colon .ternary
  return .ternary test yes (← read .conditional)

def conditional : Reader Expr := do
  let cursor ← here
  if cursor.kind = .ifWord && !isIfCall cursor.rest.tail then settle (choice read)
  else
    let test ← disjunction read
    if ← consumeIf .question then settle (ternary read test) else return test

end DiceScript.Grammar
