import DiceScript.Dice
import DiceScript.Integer

/-!
Expressions: the trees that scripts are read into. A mistake in a script is a node of its tree like
any other, and so a script with mistakes still has a tree.
-/

namespace DiceScript

/-! ## Operators -/

inductive UnaryOp
  | negate
  | not
  | stringify
  | baseOf
  deriving DecidableEq, Repr

def UnaryOp.symbol : UnaryOp → String
  | negate => "-"
  | not => "!"
  | stringify => "%"
  | baseOf => "@"

inductive BinaryOp
  | or
  | and
  | getBonus
  | equal
  | unequal
  | range
  | hasFlag
  | less
  | greater
  | lessEqual
  | greaterEqual
  | add
  | subtract
  | multiply
  | divide
  | remainder
  deriving DecidableEq, Repr

def BinaryOp.symbol : BinaryOp → String
  | or => "||"
  | and => "&&"
  | getBonus => "$"
  | equal => "=="
  | unequal => "!="
  | range => ".."
  | hasFlag => "&"
  | less => "<"
  | greater => ">"
  | lessEqual => "<="
  | greaterEqual => ">="
  | add => "+"
  | subtract => "-"
  | multiply => "*"
  | divide => "/"
  | remainder => "%"

/-- The operators on arrays: a function or amount for every element, the elements that fit, one
array after another, and sorting. -/
inductive ShiftOp
  | push
  | pull
  | append
  | arrange
  deriving DecidableEq, Repr

def ShiftOp.symbol : ShiftOp → String
  | push => "<<"
  | pull => ">>"
  | append => ">>*"
  | arrange => "<>"

inductive AssignOp
  | set
  | add
  | subtract
  | multiply
  | divide
  | remainder
  | elevate
  deriving DecidableEq, Repr

namespace AssignOp

def symbol : AssignOp → String
  | set => "="
  | add => "+="
  | subtract => "-="
  | multiply => "*="
  | divide => "/="
  | remainder => "%="
  | elevate => "^="

/-- The arithmetic that a compound assignment does before it stores. -/
def arithmetic? : AssignOp → Option BinaryOp
  | set | elevate => none
  | add => some .add
  | subtract => some .subtract
  | multiply => some .multiply
  | divide => some .divide
  | remainder => some .remainder

end AssignOp

/-! ## Trees -/

mutual

/-- A node of the tree of a script. -/
inductive Expr
  | empty
  | number (value : Integer)
  | text (value : String)
  | symbol (value : String)
  | var (name : String)
  | dice (spec : DiceSpec)
  | stored (value : String)
  | error (message : String)
  | unary (op : UnaryOp) (operand : Expr)
  | binary (op : BinaryOp) (left right : Expr)
  | ternary (test yes no : Expr)
  | shift (op : ShiftOp) (left right : Expr)
  | pair (key value : Expr)
  /-- A dice literal times a number, or divided by one. -/
  | multiplied (op : BinaryOp) (dice count : Expr)
  | index (container index : Expr)
  | property (target : Expr) (name : String)
  | method (target : Expr) (name : String) (args : List Expr)
  | assign (name : String) (op : AssignOp) (value : Expr)
  /-- An assignment through indices; the target is an index node. -/
  | assignIndex (target : Expr) (op : AssignOp) (value : Expr)
  | choice (branches : Branches)
  | loop (name : String) (iterable body : Expr)
  | sequence (first rest : Expr)
  | pipe (first rest : Expr)
  | call (name : String) (args : List Expr)
  | apply (callee : Expr) (args : List Expr)
  /-- A function; its body stays text until a call. -/
  | function (params : List String) (body : String)
  | array (elements : List Expr)
  | bonus (name : Expr) (type value : Option Expr)
  /-- An expression that is kept instead of its value. -/
  | defer (operand : Expr)
  | event (argument : Expr)

/-- The branches of an `if`, tried in order. -/
inductive Branches
  | done
  | otherwise (body : Expr)
  | test (condition body : Expr) (rest : Branches)

end

namespace Expr

/-- What kind of expression a node is, as messages call it. -/
def kind : Expr → String
  | empty => "empty"
  | number _ => "number"
  | text _ => "string"
  | symbol _ => "symbol"
  | var _ => "variable"
  | dice _ => "dice"
  | stored _ => "stored expression"
  | error _ => "error"
  | unary .. => "unary"
  | binary .. => "binary"
  | ternary .. => "ternary"
  | shift .. => "shift"
  | pair .. => "pair"
  | multiplied .. => "dice multiplier"
  | index .. => "index"
  | property .. | method .. => "member"
  | assign .. | assignIndex .. => "assignment"
  | choice _ => "if"
  | loop .. => "for"
  | sequence .. => "sequence"
  | pipe .. => "pipe"
  | call .. => "call"
  | apply .. => "function call"
  | function .. => "function"
  | array _ => "array"
  | bonus .. => "bonus"
  | defer _ => "expression"
  | event _ => "event"

def isError : Expr → Bool
  | error _ => true
  | _ => false

/-- Whether parentheses after the expression call it. -/
def isCallable : Expr → Bool
  | var _ | index .. | property .. | method .. | call .. | apply .. | function .. => true
  | _ => false

end Expr

end DiceScript
