import DiceScript.Eval.ArrayOp
import DiceScript.Eval.Bonus
import DiceScript.Eval.Control
import DiceScript.Eval.Member
import DiceScript.Eval.Roll

/-!
Evaluation of every kind of expression, as a run that asks for the values of expressions one level
deeper.
-/

namespace DiceScript.Eval

open Run

variable {σ : Type} (engine : Engine σ)

/-- A binary operator on two expressions. -/
def binary (op : BinaryOp) (left right : Expr) : Run σ Value :=
  if op = .getBonus then getBonus left right
  else do
    let a ← eval left
    let b ← eval right
    return Value.binary op a b

/-- A pair. A name in front of the colon is the key itself. -/
def pair (key value : Expr) : Run σ Value :=
  let withKey (key : Value) : Run σ Value :=
    andThen (eval value) fun v => return .pair key v
  match key with
  | .var name => withKey (.str name)
  | key => andThen (eval key) withKey

/-- An event, which is logged with its value. -/
def event (argument : Expr) : Run σ Value := do
  let v ← eval argument
  writeLine ("event: " ++ v.text)
  return v

/-- Logs an error that a sequence goes on after. -/
def logError (v : Value) : Run σ Unit :=
  match v with
  | .error message => writeLine message
  | _ => pure ()

/-- Evaluates an expression. The first part of a sequence is on the same level as the sequence, so
that long scripts do not nest; all other parts are one level deeper. -/
def step : Expr → Run σ Value
  | .empty => return .int 0
  | .number n => return .int n
  | .text s => return .str s
  | .symbol s => return .symbol s
  | .stored text => return .expression text
  | .error message => return .error message
  | .var name => readVar name
  | .dice spec => roll engine.roller spec
  | .unary op operand => do return Value.unary op (← eval operand)
  | .binary op left right => binary op left right
  | .ternary test yes no =>
    andThen (eval test) fun v => if v.isTruthy then eval yes else eval no
  | .shift op left right => shift op left right
  | .pair key value => pair key value
  | .multiplied op dice count => multiplied engine.roller op dice count
  | .index container position => index engine.roller container position
  | .property target name => member target name []
  | .method target name args => member target name args
  | .assign name op value => assignVar name op value
  | .assignIndex target op value => assignIndex target op value
  | .choice branches => choose branches
  | .loop name iterable body => loop name iterable body
  | .sequence first rest => do
    logError (← step first)
    eval rest
  | .pipe first rest => do
    let v ← step first
    if engine.config.echoPipes then writeLine v.text
    eval rest
  | .call name args => call engine.roller name args
  | .apply callee args => apply callee args
  | .function params body => return .function ⟨params, body⟩
  | .array elements => andThenAll elements fun vs => return Value.ofList vs
  | .bonus name type value => bonus name type value
  | .defer operand => defer operand
  | .event argument => event argument

end DiceScript.Eval
