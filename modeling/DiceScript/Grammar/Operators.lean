import DiceScript.Grammar.Reader

/-!
Which tokens are operators at which level of precedence, and how each joins its operands.
-/

namespace DiceScript.Operators

/-- How an operator joins what stands on its two sides. -/
abbrev Join := TokenKind → Option (Expr → Expr → Expr)

def disjunction? : Join
  | .orOr => some (.binary .or)
  | _ => none

def conjunction? : Join
  | .andAnd => some (.binary .and)
  | _ => none

def getBonus? : Join
  | .dollar => some (.binary .getBonus)
  | _ => none

def equality? : Join
  | .equalEqual => some (.binary .equal)
  | .notEqual => some (.binary .unequal)
  | .dotDot => some (.binary .range)
  | .ampersand => some (.binary .hasFlag)
  | _ => none

def relational? : Join
  | .openAngle => some (.binary .less)
  | .closeAngle => some (.binary .greater)
  | .lessEqual => some (.binary .lessEqual)
  | .greaterEqual => some (.binary .greaterEqual)
  | _ => none

def shift? : Join
  | .shiftLeft => some (.shift .push)
  | .shiftRight => some (.shift .pull)
  | .shiftRightStar => some (.shift .append)
  | .diamond => some (.shift .arrange)
  | _ => none

def additive? : Join
  | .plus => some (.binary .add)
  | .minus => some (.binary .subtract)
  | _ => none

/-- A product or quotient. With a dice literal on the left it is kept apart, since it may mean that
the dice are rolled several times. -/
def scaled (op : BinaryOp) (left right : Expr) : Expr :=
  match left with
  | .dice _ => .multiplied op left right
  | _ => .binary op left right

def multiplicative? : Join
  | .star => some (scaled .multiply)
  | .slash => some (scaled .divide)
  | .percent => some (.binary .remainder)
  | _ => none

def unary? : TokenKind → Option (Expr → Expr)
  | .minus => some (.unary .negate)
  | .exclamation => some (.unary .not)
  | .percent => some (.unary .stringify)
  | .atSign => some (.unary .baseOf)
  | .pound => some .defer
  | _ => none

def assignment? : TokenKind → Option AssignOp
  | .equal => some .set
  | .plusEqual => some .add
  | .minusEqual => some .subtract
  | .starEqual => some .multiply
  | .slashEqual => some .divide
  | .percentEqual => some .remainder
  | .caretEqual => some .elevate
  | _ => none

end DiceScript.Operators
