import DiceScript.Token

/-!
Mistakes: what can be wrong with the form of a script, and how it is said.
-/

namespace DiceScript

/-- Where in a construct a token was expected. -/
inductive Place
  | loopVariable
  | loopIterable
  | loopBody
  | blockStart
  | blockEnd
  | ternary
  | ifCondition
  | elseWord
  | bonusEnd
  | indexEnd
  | argumentsStart
  | eventEnd
  | parenthesisEnd
  deriving DecidableEq, Repr

def Place.text : Place → String
  | loopVariable => "after the loop variable"
  | loopIterable => "after the loop iterable"
  | loopBody => "to open the loop body"
  | blockStart => "to open the block"
  | blockEnd => "to close the block"
  | ternary => "in ternary expression"
  | ifCondition => "after the if condition"
  | elseWord => "after 'else'"
  | bonusEnd => "to close the bonus"
  | indexEnd => "to close the index"
  | argumentsStart => "to open the argument list"
  | eventEnd => "to close the event"
  | parenthesisEnd => "to close the parenthesis"

/-- What is wrong with the form of a script. -/
inductive Mistake
  | expected (kind : TokenKind) (place : Place)
  | unexpectedToken
  | unexpectedKind (kind : TokenKind)
  | unexpectedCharacter (text : String)
  | unexpectedEnd
  | notAssignable (kind : String)
  | noLoopVariable
  | noBonusName
  | noMemberName
  | argumentList
  | arrayList
  | integerTooLarge
  | invalidDice
  /-- Reading dice breaks down. No script comes of a text with this mistake. -/
  | brokenDice
  | parameterList
  | noFunctionBody
  | openFunctionBody
  deriving DecidableEq, Repr

namespace Mistake

def text : Mistake → String
  | expected kind place => "expected '" ++ kind.spelling ++ "' " ++ place.text
  | unexpectedToken => "unexpected token"
  | unexpectedKind kind => "unexpected '" ++ kind.spelling ++ "'"
  | unexpectedCharacter text => "unexpected character '" ++ text ++ "'"
  | unexpectedEnd => "unexpected end of input"
  | notAssignable kind => "cannot assign to a " ++ kind ++ " expression"
  | noLoopVariable => "expected a loop variable after 'for'"
  | noBonusName => "expected a bonus name after '$'"
  | noMemberName => "expected a member name after '.'"
  | argumentList => "expected ',' or ')' in argument list"
  | arrayList => "expected ',' or ']' in array"
  | integerTooLarge => "integer literal is too large"
  | invalidDice => "invalid dice"
  | brokenDice => "byte index 1 is not a char boundary"
  | parameterList => "invalid parameter list"
  | noFunctionBody => "expected '\x7b' to open the function body"
  | openFunctionBody => "unmatched '\x7b' in function body"

/-- The mistake with the tokens around it, where there are any. -/
def message (m : Mistake) (window : String) : String :=
  if window.isEmpty then m.text else m.text ++ ": `" ++ window ++ "`"

end Mistake

end DiceScript
