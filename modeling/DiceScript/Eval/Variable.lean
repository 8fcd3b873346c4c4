import DiceScript.Eval.Machine
import DiceScript.Script
import DiceScript.Value.Assign

/-!
Variables: reading them, and assigning to them and to the slots of arrays in them. Texts that are
read while a script runs are evaluated one level deeper, as the parts of an expression are.
-/

namespace DiceScript.Eval

open Run

variable {σ : Type}

/-- Reads a text and evaluates it. -/
def evalText (text : String) : Run σ Value :=
  match Script.parse text with
  | some script => eval script.root
  | none => breakdown

/-- The value of a variable. A stored expression is evaluated every time, and an unknown name is
logged and counts as zero. -/
def readVar (name : String) : Run σ Value := do
  match ← lookup name with
  | some (.expression text) => evalText text
  | some v => return v
  | none =>
    writeLine ((Fault.notFound (Name.normalize name)).message ++ ".")
    return .int 0

/-- The value that an assignment to a variable starts from. A stored expression is evaluated, unless
it is only replaced. -/
def currentValue (name : String) (op : AssignOp) : Run σ (Option Value) := do
  match ← lookup name with
  | some (.expression text) =>
    if op = .set then return some (.expression text) else return some (← evalText text)
  | current => return current

/-- Stores a value in a variable, unless it is an error. -/
def store (name : String) (v : Value) : Run σ Value := do
  if v.isError then return v
  else
    assign name v
    return v

/-- Stores a value in a global variable. -/
def elevate (name : String) (v : Value) : Run σ Value := do
  match (← context).elevate name v with
  | .ok context =>
    modifyContext fun _ => context
    return v
  | .error f => return .fail f

/-- Assigns to a variable. -/
def assignVar (name : String) (op : AssignOp) (value : Expr) : Run σ Value :=
  andThen (eval value) fun v => do
    if op = .elevate then elevate name v
    else
      match ← currentValue name op with
      | some current => store name (Value.assigned op current v)
      | none =>
        if op = .set then store name v else return .fail (.notFound (Name.normalize name))

/-- The variable that a chain of indices starts from and the indices in order, or the kind of the
expression that it starts from instead. -/
def indexPath : Expr → Except String (String × List Expr)
  | .index container index => (indexPath container).map fun (name, path) => (name, path ++ [index])
  | .var name => .ok (name, [])
  | other => .error other.kind

/-- Assigns to a slot of an array. The variable is read, changed along the indices and stored back
as a whole. -/
def assignSlot (name : String) (op : AssignOp) (indices : List Value) (v : Value) :
    Run σ Value := do
  match ← lookup name with
  | none => return .fail (.notFound (Name.normalize name))
  | some container =>
    match Value.assignPath container op v indices with
    | .ok (updated, assigned) =>
      assign name updated
      return assigned
    | .error message => return .error message

/-- Assigns through a chain of indices. -/
def assignIndex (target : Expr) (op : AssignOp) (value : Expr) : Run σ Value :=
  if op = .elevate then return .fail .onlyVariables
  else
    match indexPath target with
    | .error kind => return .fail (.notAssignableThrough kind)
    | .ok (name, path) =>
      andThenAll path fun indices =>
        andThen (eval value) fun v => assignSlot name op indices v

end DiceScript.Eval
