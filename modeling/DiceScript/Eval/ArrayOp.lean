import DiceScript.Eval.Call
import DiceScript.Value.Operators

/-!
Array operators: a function or value for every element, the elements that fit, one array after
another, and sorting.
-/

namespace DiceScript.Eval

open Run

variable {σ : Type}

/-- What pushing does to an element: a function is called with it, anything else is added to it. -/
def pushed (operand element : Value) (position : Nat) : Run σ Value :=
  match operand with
  | .function f => callOnElement .push f element position
  | other => return Value.binary .add element other

/-- Pushes an operand onto every element, up to the first error. Keys stay where they are. -/
def pushAll (operand : Value) : Nat → List Value → Run σ (Except Value (List Value))
  | _, [] => return .ok []
  | position, element :: rest => do
    let (key, inner) := element.splitPair
    let v ← pushed operand inner position
    if v.isError then return .error v
    else
      match ← pushAll operand (position + 1) rest with
      | .ok vs => return .ok (Value.joinPair key v :: vs)
      | .error error => return .error error

/-- Whether pulling keeps an element: a function decides, anything else must be equal to it. An
error of the function is the answer itself. -/
def pulled (operand element : Value) (position : Nat) : Run σ (Except Value Bool) := do
  match operand with
  | .function f =>
    let v ← callOnElement .pull f element.unwrapPair position
    if v.isError then return .error v else return .ok v.isTruthy
  | other => return .ok (element.unwrapPair.equal other)

/-- The elements that pulling keeps, up to the first error. -/
def pullAll (operand : Value) : Nat → List Value → Run σ (Except Value (List Value))
  | _, [] => return .ok []
  | position, element :: rest => do
    match ← pulled operand element position with
    | .error error => return .error error
    | .ok keep =>
      match ← pullAll operand (position + 1) rest with
      | .ok vs => return .ok (if keep then element :: vs else vs)
      | .error error => return .error error

/-- An array of new elements, or the error that kept it from being one. -/
def arrayOrError : Except Value (List Value) → Value
  | .ok vs => Value.ofList vs
  | .error error => error

/-- An array operator on two values that are no errors. -/
def shiftValues (op : ShiftOp) (a b : Value) : Run σ Value :=
  match op, a with
  | .push, .array elements _ => do return arrayOrError (← pushAll b 0 elements)
  | .pull, .array elements _ => do return arrayOrError (← pullAll b 0 elements)
  | .append, a => return Value.joined a b
  | .arrange, a => return Value.arranged a b
  | op, a => return Value.shiftMismatch op a b

/-- An array operator. Both operands are evaluated before either is looked at. -/
def shift (op : ShiftOp) (left right : Expr) : Run σ Value := do
  let a ← eval left
  let b ← eval right
  if a.isError then return a
  else if b.isError then return b
  else shiftValues op a b

end DiceScript.Eval
