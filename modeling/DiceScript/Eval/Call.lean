import DiceScript.Builtin
import DiceScript.Eval.Variable

/-!
Calls: functions run in a frame of their own, and give back to the variables that were passed to
them what they changed.
-/

namespace DiceScript.Eval

open Run

variable {σ : Type} (roller : Roller σ)

/-- Gives the arguments of a call to its parameters. -/
def bindParams (params : List String) (args : List Value) (c : Context) : Context :=
  (params.zip args).foldl (fun c (param, v) => c.assign param v) c

/-- Evaluates the body of a function in a frame of its own. The answer has that frame as it was in
the end. -/
def invoke (f : Function) (args : List Value) : Run σ (Value × Frame) := do
  modifyContext fun c => bindParams f.params args c.pushScope
  let result ← evalText f.body
  let (frame, context) := (← context).popScope
  modifyContext fun _ => context
  return (result, frame)

/-- The value that a parameter in a frame gives back to the variable passed for it: the one it had
in the end, if that is not the one it was called with. -/
def copiedBack? (frame : Frame) (param : String) (passed : Value) : Option Value :=
  (frame.get? (Name.normalize param)).filter fun v => !v.same passed

/-- Gives the parameters that the body changed back to the variables passed for them. -/
def copyBack (frame : Frame) : List (Expr × String × Value) → Context → Context
  | [], c => c
  | (.var name, param, passed) :: rest, c =>
    match copiedBack? frame param passed with
    | some v => copyBack frame rest (c.update name v)
    | none => copyBack frame rest c
  | _ :: rest, c => copyBack frame rest c

/-- Calls a function under a name. -/
def callFunction (f : Function) (name : String) (args : List Expr) : Run σ Value := do
  if args.length ≠ f.params.length then
    return .fail (.argumentCount name f.params.length args.length)
  else
    let passed ← values args
    let (result, frame) ← invoke f passed
    modifyContext (copyBack frame (args.zip (f.params.zip passed)))
    return result

/-- Calls what a name stands for: a function in a variable, or else a built-in function. Any other
name gives zero. -/
def call (name : String) (args : List Expr) : Run σ Value := do
  match ← lookup name with
  | some (.function f) => callFunction f (Name.normalize name) args
  | _ =>
    let passed ← values args
    match Builtin.ofName? (Name.fold name) with
    | some builtin => withTray (builtin.call roller passed)
    | none => return .int 0

/-- Calls the value of an expression. -/
def apply (callee : Expr) (args : List Expr) : Run σ Value :=
  andThen (eval callee) fun
    | .function f => callFunction f "function" args
    | other => return .fail (.notCallable other.kind)

/-- The arguments that a function on elements takes: of the element and its position as many as it
has parameters for. -/
def elementArgs (op : ShiftOp) (f : Function) (element : Value) (position : Nat) :
    Except Fault (List Value) :=
  match f.params.length with
  | 0 => .ok []
  | 1 => .ok [element]
  | 2 => .ok [element, .int (Integer.ofSize position)]
  | n => .error (.elementFunction op.symbol n)

/-- Calls a function for an element of an array. -/
def callOnElement (op : ShiftOp) (f : Function) (element : Value) (position : Nat) :
    Run σ Value := do
  match elementArgs op f element position with
  | .ok args => return (← invoke f args).1
  | .error fault => return .fail fault

end DiceScript.Eval
