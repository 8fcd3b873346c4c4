import DiceScript.Expr
import DiceScript.Grammar.Cursor
import DiceScript.Grammar.Mistake

/-!
Readers: the steps by which tokens become trees. A reader moves a cursor and notes the mistakes it
finds. A construct that cannot be completed gives the node of its mistake. A reader has no outcome
only when a repetition in it, or the nesting of constructs, goes on beyond the bound it was given.
-/

namespace DiceScript

/-- How far reading has come: the cursor, and the mistakes in the order they were noted. -/
structure Progress where
  cursor : Cursor
  mistakes : List String
  deriving Repr

/-- What a reader goes by: the text of the script, and whether a colon makes a pair. In the middle
of a ternary it does not. -/
structure Setting where
  source : List Char
  pairs : Bool
  deriving Repr

/-- A step of reading. -/
abbrev Reader := ReaderT Setting (StateT Progress Option)

/-- A step of reading that may end early with the node that takes the place of the construct. -/
abbrev Attempt := ExceptT Expr Reader

namespace Reader

/-! ## Moving -/

/-- The cursor where the reader stands. -/
def here : Reader Cursor := do return (← get).cursor

/-- The kind of the next token. -/
def peek : Reader TokenKind := do return (← here).kind

/-- Puts the cursor elsewhere. -/
def moveTo (cursor : Cursor) : Reader Unit := modify ({ · with cursor })

/-- Moves past the next token. -/
def advance : Reader Unit := do moveTo (← here).advance

/-- Moves past the next token if it is of a kind, and tells whether it was. -/
def consumeIf (kind : TokenKind) : Reader Bool := do
  if (← peek) = kind then
    advance
    return true
  else return false

/-- The number of tokens ahead, which bounds every repetition. -/
def remaining : Reader Nat := do return (← here).rest.length

/-! ## Mistakes -/

/-- Notes a mistake at a cursor and gives its node. -/
def mistakeAt (cursor : Cursor) (m : Mistake) : Reader Expr := do
  let message := m.message cursor.window
  modify fun p => { p with mistakes := p.mistakes ++ [message] }
  return .error message

/-- Notes a mistake where the reader stands and gives its node. -/
def mistake (m : Mistake) : Reader Expr := do mistakeAt (← here) m

/-- The tree of a construct, which is the node of the mistake if it could not be completed. -/
def settle (attempt : Attempt Expr) : Reader Expr := do
  match ← attempt.run with
  | .ok e => return e
  | .error node => return node

/-! ## Pairs -/

/-- Reads with colons making pairs, as inside brackets. -/
def withPairs (reader : Reader Expr) : Reader Expr :=
  withReader ({ · with pairs := true }) reader

/-- Reads with colons left alone, as in the middle of a ternary. -/
def withoutPairs (reader : Reader Expr) : Reader Expr :=
  withReader ({ · with pairs := false }) reader

/-! ## Repetition -/

/-- No outcome, since a bound has been used up. -/
def exhausted {α : Type} : Reader α := fun _ _ => none

/-- Joins what stands left of an operator with what stands right of it, again and again while the
next token is such an operator. The number bounds the repetitions. -/
def chainFrom (operand : Reader Expr) (join? : TokenKind → Option (Expr → Expr → Expr)) :
    Nat → Expr → Reader Expr
  | 0, _ => exhausted
  | n + 1, left => do
    match join? (← peek) with
    | none => return left
    | some join =>
      advance
      let right ← operand
      chainFrom operand join? n (join left right)

/-- Reads operands with operators of one precedence between them, grouping from the left. -/
def chain (first operand : Reader Expr) (join? : TokenKind → Option (Expr → Expr → Expr)) :
    Reader Expr := do
  let left ← first
  chainFrom operand join? ((← remaining) + 1) left

end Reader

namespace Attempt

/-- Ends the construct with a mistake at a cursor. -/
def failAt {α : Type} (cursor : Cursor) (m : Mistake) : Attempt α := do
  throw (← Reader.mistakeAt cursor m)

/-- Ends the construct with a mistake where the reader stands. -/
def fail {α : Type} (m : Mistake) : Attempt α := do throw (← Reader.mistake m)

/-- Moves past a token that must be of a kind. -/
def expect (kind : TokenKind) (place : Place) : Attempt Unit := do
  if ← Reader.consumeIf kind then return else fail (.expected kind place)

end Attempt

end DiceScript
