import DiceScript.Grammar.Statement
import DiceScript.Token.Scan

/-!
Scripts: texts that have been read into trees. Every text whose reading does not break down is a
script, perhaps one with mistakes.
-/

namespace DiceScript

namespace Grammar

open Reader

/-- The grammar with at most some number of constructs inside each other. -/
def readWithin : Nat → Goal → Reader Expr
  | 0, _ => exhausted
  | n + 1, goal => rule (readWithin n) goal

end Grammar

/-- The tree of a text, and every mistake noted while it was read, in order. -/
structure Script where
  root : Expr
  mistakes : List String

namespace Script

/-- Whether reading broke down on the way. -/
def isBroken (script : Script) : Bool :=
  script.mistakes.any fun message => Mistake.brokenDice.text.toList.isPrefixOf message.toList

/-- Reads tokens of a text, as far as at most `n` constructs stand inside each other. -/
def ofTokensWithin? (n : Nat) (cs : List Char) (tokens : List Token) : Option Script := do
  let read := Grammar.readWithin n (.sequence none)
  let (root, progress) ← (read.run ⟨cs, true⟩).run ⟨.ofTokens tokens, []⟩
  return ⟨root, progress.mistakes⟩

/-- Reads a text. A construct inside another starts at least one token later, so the number of
tokens is a bound that no text exceeds. Nothing comes of a text when reading breaks down. -/
def parse (text : String) : Option Script := do
  let (tokens, _) ← Token.scan text
  let script ← ofTokensWithin? (tokens.length + 1) text.toList tokens
  if script.isBroken then none else return script

end Script

end DiceScript
