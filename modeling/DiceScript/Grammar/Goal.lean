import DiceScript.Grammar.Reader

/-!
The grammar of scripts, one rule for each construct. From the loosest binding to the tightest:

sequence (`;`, `|`), statement (`for`, assignment), conditional (`if`, `?:`), `||`, `&&`, bonus of a
stat (`$`), equality (`==`, `!=`, `..`, `&`), relation, array operator (`<<`, `>>`, `>>*`, `<>`),
sum, product, pair (`:`), unary operator, suffix (index, member, call), leaf.

A rule refers to another in one of two ways. The next tighter rule is used as it is. A rule that
starts over at a looser level does so only after it has read a token, and goes through `read`, which
stands for the grammar itself.
-/

namespace DiceScript.Grammar

/-- The levels at which the grammar starts over inside a construct. -/
inductive Goal
  /-- Statements up to a closing token, or up to the end. -/
  | sequence (terminator : Option TokenKind)
  | statement
  | conditional
  | disjunction
  | pair
  | unary
  deriving DecidableEq, Repr

end DiceScript.Grammar
