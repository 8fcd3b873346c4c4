import DiceScript.Bonus
import DiceScript.Grammar.Goal
import DiceScript.Text.Blank

/-!
Terms: leaves, the suffixes after them, and bonuses.
-/

namespace DiceScript.Grammar

open Reader Attempt

variable (read : Goal → Reader Expr)

/-! ## Lists and blocks -/

/-- Reads expressions with commas between them up to a closing bracket. -/
def itemsFrom (closing : TokenKind) (m : Mistake) : Nat → Attempt (List Expr)
  | 0 => exhausted
  | n + 1 => do
    let item ← withPairs (read .conditional)
    let kind ← peek
    if kind = .comma then
      advance
      return item :: (← itemsFrom closing m n)
    else if kind = closing then
      advance
      return [item]
    else fail m

/-- Reads the expressions of a list whose opening bracket has been read. -/
def items (closing : TokenKind) (m : Mistake) : Attempt (List Expr) := do
  if ← consumeIf closing then return []
  else itemsFrom read closing m ((← remaining) + 1)

/-- Reads the arguments of a call. -/
def arguments : Attempt (List Expr) := do
  expect .openParen .argumentsStart
  items read .closeParen .argumentList

/-- Reads statements between curly brackets. -/
def block (place : Place) : Attempt Expr := do
  expect .openCurly place
  let body ← withPairs (read (.sequence (some .closeCurly)))
  expect .closeCurly .blockEnd
  return body

/-! ## Functions -/

/-- Reads the body of a function, which stays text. -/
def functionBody (params : List String) : Attempt Expr := do
  let cursor ← here
  if cursor.kind ≠ .openCurly then fail .noFunctionBody
  else
    match Cursor.groupAt? cursor.rest with
    | none => failAt cursor .openFunctionBody
    | some g =>
      let source := (← readThe Setting).source
      let body := Text.slice source g.opening.span.last.offset.toNat
        g.closing.span.first.offset.toNat
      moveTo (cursor.skip (g.inside.length + 2))
      return .function params (String.ofList (Text.trim body))

/-- Reads a function whose parameters stand in the parentheses of a group. -/
def functionAfter (g : Cursor.Group) : Attempt Expr := do
  let cursor ← here
  match Cursor.parameters? true g.inside with
  | none => failAt cursor .parameterList
  | some (params, dangling) =>
    if dangling && !params.isEmpty then
      failAt (cursor.skip (g.inside.length + 1)) .parameterList
    else
      moveTo (cursor.skip (g.inside.length + 3))
      functionBody params

/-- Reads a function with parameters, or statements between parentheses. -/
def parenthesized : Attempt Expr := do
  match (Cursor.groupAt? (← here).rest).filter (·.followedBy .arrow) with
  | some g => functionAfter g
  | none =>
    advance
    let inner ← withPairs (read (.sequence (some .closeParen)))
    expect .closeParen .parenthesisEnd
    return inner

/-! ## Leaves and suffixes -/

/-- Reads a call of a named function. -/
def namedCall (name : String) : Attempt Expr := do return .call name (← arguments read)

/-- Reads an expression between single quotes. -/
def event : Attempt Expr := do
  let argument ← withPairs (read .conditional)
  expect .quote .eventEnd
  return .event argument

/-- The names that the short form of a function binds. -/
def implicitParams : List String := ["_", "I"]

/-- Reads the leaf that begins with a token at a cursor. -/
def leafAt (cursor : Cursor) (token : Token) : Reader Expr := do
  match token.kind with
  | .integer =>
    advance
    match Integer.read? token.text.toList with
    | some n => return .number n
    | none => mistakeAt cursor .integerTooLarge
  | .string => advance; return .text token.text
  | .stored => advance; return .stored token.text
  | .dice =>
    advance
    match DiceSpec.read token.text with
    | .ok spec => return .dice spec
    | .error .malformed => mistakeAt cursor .invalidDice
    | .error .breakdown => mistakeAt cursor .brokenDice
  | .identifier =>
    advance
    if (← peek) = .openParen then settle (namedCall read token.text)
    else return .var token.text
  | .ifWord => advance; settle (namedCall read "if")
  | .openParen => settle (parenthesized read)
  | .arrow => advance; settle (functionBody implicitParams)
  | .openCurly => settle (block read .blockStart)
  | .openSquare =>
    advance
    settle (do return .array (← items read .closeSquare .arrayList))
  | .tilde => advance; return .symbol "~"
  | .quote => advance; settle (event read)
  | .unknown => advance; mistakeAt cursor (.unexpectedCharacter token.text)
  | kind => mistakeAt cursor (.unexpectedKind kind)

def leaf : Reader Expr := do
  let cursor ← here
  match cursor.rest with
  | [] => mistakeAt cursor .unexpectedEnd
  | token :: _ => leafAt read cursor token

/-- Reads an index whose bracket has been read. A count or random mark alone is a symbol. -/
def indexOf (container : Expr) : Attempt Expr := do
  let cursor ← here
  let isMark := (cursor.kind = .pound || cursor.kind = .tilde) && cursor.kindAt 1 = .closeSquare
  let index ← if isMark then do
      advance
      pure (Expr.symbol cursor.kind.spelling)
    else withPairs (read .conditional)
  expect .closeSquare .indexEnd
  return .index container index

/-- Reads a member whose dot has been read. -/
def memberOf (target : Expr) : Attempt Expr := do
  match (← here).rest with
  | token :: _ =>
    if token.kind = .identifier then
      advance
      if (← peek) = .openParen then return .method target token.text (← arguments read)
      else return .property target token.text
    else fail .noMemberName
  | [] => fail .noMemberName

/-- Reads one suffix of an expression, if one follows. -/
def suffix? (e : Expr) : Attempt (Option Expr) := do
  match ← peek with
  | .openSquare => advance; return some (← indexOf read e)
  | .dot => advance; return some (← memberOf read e)
  | .openParen => if e.isCallable then return some (.apply e (← arguments read)) else return none
  | _ => return none

/-- Reads suffixes as long as they follow. One that cannot be completed ends them. -/
def suffixesFrom : Nat → Expr → Reader Expr
  | 0, _ => exhausted
  | n + 1, e => do
    match ← (suffix? read e).run with
    | .ok (some next) => suffixesFrom n next
    | .ok none => return e
    | .error node => return node

/-- Reads a leaf and the suffixes after it. -/
def suffixed : Reader Expr := do
  let e ← leaf read
  suffixesFrom read ((← remaining) + 1) e

/-! ## Bonuses -/

/-- Reads an identifier that nothing after it makes part of a larger expression. -/
def bareWord? : Reader (Option String) := do
  let cursor ← here
  match cursor.rest with
  | token :: _ =>
    let grows := [TokenKind.openParen, .openSquare, .dot].contains (cursor.kindAt 1)
    if token.kind = .identifier && !grows then
      advance
      return some token.text
    else return none
  | [] => return none

/-- Reads the name or type of a bonus. A word or a star alone stands for itself. -/
def bonusArgument : Reader Expr := do
  let cursor ← here
  let isBare := cursor.kindAt 1 = .comma || cursor.kindAt 1 = .closeParen
  match cursor.rest with
  | token :: _ =>
    if isBare && token.kind = .identifier then
      advance
      return .text token.text
    else if isBare && token.kind = .star then
      advance
      return .text Bonus.wildcard
    else withPairs (read .conditional)
  | [] => withPairs (read .conditional)

/-- Reads the name of a bonus and what of type and value is given, after the opening parenthesis. -/
def bonusDetails : Attempt Expr := do
  let name ← bonusArgument read
  if !(← consumeIf .comma) then
    expect .closeParen .bonusEnd
    return .bonus name none none
  else
    let type ← bonusArgument read
    if !(← consumeIf .comma) then
      expect .closeParen .bonusEnd
      return .bonus name (some type) none
    else
      let value ← withPairs (read .conditional)
      expect .closeParen .bonusEnd
      return .bonus name (some type) (some value)

/-- Reads a bonus whose mark has been read. -/
def bonus : Attempt Expr := do
  match ← bareWord? with
  | some word => return .bonus (.text word) none none
  | none =>
    match (← here).rest with
    | token :: _ =>
      if token.kind = .string then
        advance
        return .bonus (.text token.text) none none
      else if token.kind = .openParen then
        advance
        bonusDetails read
      else fail .noBonusName
    | [] => fail .noBonusName

end DiceScript.Grammar
