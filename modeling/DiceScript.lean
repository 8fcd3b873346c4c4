import DiceScript.Bonus
import DiceScript.Builtin
import DiceScript.Context
import DiceScript.Dice
import DiceScript.Dice.Roll
import DiceScript.Eval
import DiceScript.Eval.ArrayOp
import DiceScript.Eval.Bonus
import DiceScript.Eval.Call
import DiceScript.Eval.Control
import DiceScript.Eval.Machine
import DiceScript.Eval.Member
import DiceScript.Eval.Roll
import DiceScript.Eval.Step
import DiceScript.Eval.Variable
import DiceScript.Expr
import DiceScript.Expr.Outline
import DiceScript.Fault
import DiceScript.Grammar.Cursor
import DiceScript.Grammar.Goal
import DiceScript.Grammar.Mistake
import DiceScript.Grammar.Operation
import DiceScript.Grammar.Operators
import DiceScript.Grammar.Reader
import DiceScript.Grammar.Statement
import DiceScript.Grammar.Term
import DiceScript.Integer
import DiceScript.Log
import DiceScript.Name
import DiceScript.Proofs.Context
import DiceScript.Proofs.Context.Names
import DiceScript.Proofs.Eval.Aliases
import DiceScript.Proofs.Eval.Arithmetic
import DiceScript.Proofs.Eval.Composed
import DiceScript.Proofs.Eval.Ending
import DiceScript.Proofs.Eval.Errors
import DiceScript.Proofs.Eval.Outcome
import DiceScript.Proofs.Eval.Scope
import DiceScript.Proofs.Eval.Upkeep
import DiceScript.Proofs.Grammar.Bounds
import DiceScript.Proofs.Grammar.Forward
import DiceScript.Proofs.Grammar.Inset
import DiceScript.Proofs.Grammar.Inset.Mirror
import DiceScript.Proofs.Grammar.Inset.Statements
import DiceScript.Proofs.Grammar.Inset.Terms
import DiceScript.Proofs.Grammar.Lookahead
import DiceScript.Proofs.Grammar.Outcome
import DiceScript.Proofs.Grammar.Printing
import DiceScript.Proofs.Grammar.RoundTrip
import DiceScript.Proofs.Grammar.Rules
import DiceScript.Proofs.Grammar.Safety
import DiceScript.Proofs.Grammar.Statements
import DiceScript.Proofs.Grammar.Terms
import DiceScript.Proofs.Token.Joined
import DiceScript.Proofs.Token.Layout
import DiceScript.Proofs.Token.Words
import DiceScript.Proofs.Value.Aliases
import DiceScript.Proofs.Value.Discipline
import DiceScript.Proofs.Value.Parts
import DiceScript.Range
import DiceScript.Roller
import DiceScript.Script
import DiceScript.Session
import DiceScript.Sorting
import DiceScript.Source
import DiceScript.Stat
import DiceScript.Text.Blank
import DiceScript.Text.Bytes
import DiceScript.Text.Decimal
import DiceScript.Text.Letter
import DiceScript.Text.LetterTable
import DiceScript.Text.Quoted
import DiceScript.Token
import DiceScript.Token.Scan
import DiceScript.Value
import DiceScript.Value.Assign
import DiceScript.Value.Index
import DiceScript.Value.Items
import DiceScript.Value.Member
import DiceScript.Value.Operators
import DiceScript.Value.Order
import DiceScript.Proofs.Grammar.Joined
import DiceScript.Proofs.Eval.Records
import DiceScript.Proofs.Eval.Sequencing
import DiceScript.Proofs.Grammar.Nesting
import DiceScript.Proofs.Grammar.Nesting.Leads
import DiceScript.Proofs.Grammar.Nesting.Rules
import DiceScript.Proofs.Grammar.Recovery
import DiceScript.Proofs.Context.Bindings
import DiceScript.Proofs.Eval.CopyBack
import DiceScript.Proofs.Eval.Updates
import DiceScript.Proofs.Eval.Atomicity
import DiceScript.Proofs.Eval.StatChanges
import DiceScript.Proofs.Token.Partition
import DiceScript.Proofs.Grammar.Mistakes
import DiceScript.Proofs.Grammar.Mistakes.Rules
import DiceScript.Proofs.Token.Cut
import DiceScript.Proofs.Token.Written
import DiceScript.Proofs.Grammar.Levels
import DiceScript.Proofs.Grammar.Functions
import DiceScript.Proofs.Value.Words
import DiceScript.Proofs.Grammar.Values
import DiceScript.Proofs.Eval.Deferred
import DiceScript.Proofs.Eval.DepthLimit
import DiceScript.Proofs.Integer
import DiceScript.Proofs.Range
import DiceScript.Proofs.Value.Picks
import DiceScript.Proofs.Eval.Echoes
import DiceScript.Proofs.Eval.Requests
import DiceScript.Proofs.Eval.Stats
import DiceScript.Proofs.Sorting
import DiceScript.Proofs.Stacking
import DiceScript.Proofs.Stacking.Order
import DiceScript.Proofs.Value.Slots
import DiceScript.Proofs.Value.Order
import DiceScript.Proofs.Eval.Arrangement
import DiceScript.Proofs.Value.Shape
import DiceScript.Proofs.Value.Equality
import DiceScript.Proofs.Value.Sameness
import DiceScript.Proofs.Eval.GivenBack
import DiceScript.Proofs.Dice
import DiceScript.Proofs.Grammar.Dice
import DiceScript.Proofs.Token.Dice
import DiceScript.Proofs.Dice.Roll
import DiceScript.Proofs.Eval.Dice
import DiceScript.Proofs.Token.Locality
import DiceScript.Proofs.Token.Literals
import DiceScript.Proofs.Text.Letter
import DiceScript.Proofs.Name
import DiceScript.Proofs.Text.Bytes
import DiceScript.Proofs.Context.Canonical
import DiceScript.Proofs.Log
import DiceScript.Proofs.Token.Lexemes
import DiceScript.Proofs.Token.Places
import DiceScript.Proofs.Grammar.Total
