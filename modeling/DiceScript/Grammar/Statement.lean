import DiceScript.Grammar.Operation

/-!
Statements and sequences of them, and the grammar as a whole.
-/

namespace DiceScript.Grammar

open Reader Attempt Operators

variable (read : Goal → Reader Expr)

/-! ## Statements -/

/-- Reads a loop. -/
def loop : Attempt Expr := do
  advance
  match (← here).rest with
  | token :: _ =>
    if token.kind = .identifier then
      advance
      expect .comma .loopVariable
      let iterable ← withPairs (read .conditional)
      expect .comma .loopIterable
      return .loop token.text iterable (← block read .loopBody)
    else fail .noLoopVariable
  | [] => fail .noLoopVariable

/-- Makes an assignment to a target; the cursor is that of its operator. -/
def assignTo (target : Expr) (op : AssignOp) (cursor : Cursor) (value : Expr) : Reader Expr :=
  match target with
  | .var name => return .assign name op value
  | .index .. => return .assignIndex target op value
  | other => mistakeAt cursor (.notAssignable other.kind)

def statement : Reader Expr := do
  if (← peek) = .forWord then settle (loop read)
  else
    let target ← conditional read
    let cursor ← here
    match assignment? cursor.kind with
    | none => return target
    | some op =>
      advance
      assignTo target op cursor (← read .statement)

/-- Whether a token ends a statement of a sequence. -/
def endsStatement (terminator : Option TokenKind) (kind : TokenKind) : Bool :=
  kind = .semicolon || kind = .bar || some kind = terminator

/-- The number of tokens up to the end of the statement, with whole bracketed groups skipped. -/
def skipLength (terminator : Option TokenKind) : Nat → List Token → Nat
  | _, [] => 0
  | depth, token :: rest =>
    if depth = 0 && endsStatement terminator token.kind then 0
    else if [.openParen, .openCurly, .openSquare].contains token.kind then
      1 + skipLength terminator (depth + 1) rest
    else if [.closeParen, .closeCurly, .closeSquare].contains token.kind then
      1 + skipLength terminator (depth - 1) rest
    else 1 + skipLength terminator depth rest

/-- Reads a statement of a sequence. When more tokens follow than it can use, that is a mistake, and
they are skipped. -/
def wholeStatement (terminator : Option TokenKind) : Reader Expr := do
  let e ← statement read
  let kind ← peek
  if kind = .finish || endsStatement terminator kind then return e
  else
    let e ← if e.isError then pure e else do pure (.sequence e (← mistake .unexpectedToken))
    let cursor ← here
    moveTo (cursor.skip (skipLength terminator 0 cursor.rest))
    return e

/-- Puts a statement after those before it. -/
def followedBy (piped : Bool) (statement : Expr) : Option Expr → Expr
  | none => statement
  | some first => if piped then .pipe first statement else .sequence first statement

/-- What comes after a turn of the loop over statements: nothing, or another turn. Both have the
statements read so far, and the flag tells whether a bar stands before the next one. -/
inductive Turn
  | last (result : Option Expr)
  | again (result : Option Expr) (piped : Bool)

/-- Reads at most one statement, and what separates it from the next. -/
def turn (terminator : Option TokenKind) (result : Option Expr) (piped : Bool) : Reader Turn := do
  let kind ← peek
  if kind = .finish || some kind = terminator then return .last result
  else if kind = .semicolon then
    advance
    return .again result piped
  else
    let result := some (followedBy piped (← wholeStatement read terminator) result)
    match ← peek with
    | .semicolon => advance; return .again result false
    | .bar => advance; return .again result true
    | _ => return .last result

/-- Reads statements. -/
def statementsFrom (terminator : Option TokenKind) :
    Nat → Option Expr → Bool → Reader (Option Expr)
  | 0, _, _ => exhausted
  | n + 1, result, piped => do
    match ← turn read terminator result piped with
    | .last result => return result
    | .again result piped => statementsFrom terminator n result piped

/-- Reads statements up to a closing token, which is left unread, or up to the end. -/
def sequence (terminator : Option TokenKind) : Reader Expr := do
  return (← statementsFrom read terminator ((← remaining) + 1) none false).getD .empty

/-! ## The whole grammar -/

/-- The rule of each level. -/
def rule : Goal → Reader Expr
  | .sequence terminator => sequence read terminator
  | .statement => statement read
  | .conditional => conditional read
  | .disjunction => disjunction read
  | .pair => pair read
  | .unary => unary read

end DiceScript.Grammar
