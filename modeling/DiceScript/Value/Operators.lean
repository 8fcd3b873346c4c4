import DiceScript.Expr
import DiceScript.Value.Items
import DiceScript.Value.Order

/-!
What operators do with values. An operand that is an error is passed on, except by the two logical
operators, which take it for false.
-/

namespace DiceScript.Value

/-- The fault of a stat whose value does not fit. -/
def overflowOf? : Value → Option Fault
  | stat s => if s.value?.isNone then some (.statOverflow s.base) else none
  | _ => none

/-- The fault of operands that an operator has no meaning for. -/
def mismatch (op : BinaryOp) (a b : Value) : Value := fail (.operands op.symbol a.kind b.kind)

/-! ## Arithmetic -/

/-- The exact result of arithmetic on two integers, or the fault. Only the five arithmetic operators
are used here. -/
def calculate (op : BinaryOp) (m n : Integer) : Except Fault Integer :=
  let fits (result : Option Integer) : Except Fault Integer :=
    match result with
    | some r => .ok r
    | none => .error (.overflow m op.symbol n)
  match op with
  | .add => fits (Integer.add? m n)
  | .subtract => fits (Integer.sub? m n)
  | .multiply => fits (Integer.mul? m n)
  | .divide => if n = 0 then .error .divisionByZero else fits (Integer.div? m n)
  | .remainder => if n = 0 then .error .divisionByZero else fits (Integer.rem? m n)
  | _ => .error (.notApplicable op.symbol)

/-- Arithmetic on values that count as numbers. -/
def arithmetic (op : BinaryOp) (a b : Value) : Value :=
  match a.int?, b.int? with
  | some m, some n =>
    match calculate op m n with
    | .ok r => int r
    | .error f => fail f
  | _, _ => mismatch op a b

/-- The sum of two values. Arrays grow, stats take bonuses, and strings are joined to anything. -/
def plus (a b : Value) : Value :=
  match a, b with
  | array es ks, array fs ls => ((Items.mk es ks).append ⟨fs, ls⟩).toValue
  | array es ks, b => ((Items.mk es ks).push b).toValue
  | stat s, bonus c | bonus c, stat s => stat (s.add c)
  | stat s, removal c | removal c, stat s => stat (s.remove c)
  | str s, b => str (s ++ b.text)
  | a, str t => str (a.text ++ t)
  | a, b => arithmetic .add a b

/-- The difference of two values. A bonus is taken off a stat. -/
def minus (a b : Value) : Value :=
  match a, b with
  | stat s, bonus c => stat (s.remove c)
  | stat s, removal c => stat (s.add c)
  | a, b => arithmetic .subtract a b

/-! ## Operators -/

/-- A comparison by an order that numbers and strings have. -/
def relate (op : BinaryOp) (holds : Ordering → Bool) (a b : Value) : Value :=
  match a.order? b with
  | some order => ofBool (holds order)
  | none => mismatch op a b

/-- An operation on two values that count as numbers. -/
def onNumbers (op : BinaryOp) (apply : Integer → Integer → Value) (a b : Value) : Value :=
  match a.int?, b.int? with
  | some m, some n => apply m n
  | _, _ => mismatch op a b

/-- An operator on operands that are no errors and whose numbers fit. -/
def combine (op : BinaryOp) (a b : Value) : Value :=
  match op with
  | .add => plus a b
  | .subtract => minus a b
  | .multiply | .divide | .remainder => arithmetic op a b
  | .equal => ofBool (a.equal b)
  | .unequal => ofBool (!a.equal b)
  | .less => relate op (· == .lt) a b
  | .greater => relate op (· == .gt) a b
  | .lessEqual => relate op (· != .gt) a b
  | .greaterEqual => relate op (· != .lt) a b
  | .hasFlag => onNumbers op (fun m n => ofBool (m &&& n != 0)) a b
  | .range => onNumbers op (fun m n => range ⟨m, n⟩) a b
  | .getBonus | .or | .and => mismatch op a b

/-- A binary operator. Of two faults among the operands the left one counts, and an error counts
before a stat that does not fit. -/
def binary (op : BinaryOp) (a b : Value) : Value :=
  match op with
  | .and => ofBool (a.isTruthy && b.isTruthy)
  | .or => ofBool (a.isTruthy || b.isTruthy)
  | _ =>
    if a.isError then a
    else if b.isError then b
    else
      match a.overflowOf?.or b.overflowOf? with
      | some f => fail f
      | none => combine op a b

/-- The negation of a value. A bonus becomes its removal and a removal its bonus. -/
def negate (v : Value) : Value :=
  match v.overflowOf? with
  | some f => fail f
  | none =>
    match v with
    | bonus b => removal b
    | removal b => bonus b
    | v =>
      match v.int?.bind Integer.neg? with
      | some n => int n
      | none => fail (.notNegatable v.kind)

/-- The base of a stat. An integer is its own. -/
def baseOf : Value → Value
  | stat s => int s.base
  | int n => int n
  | v => fail (.noBase v.kind)

/-- A unary operator. -/
def unary (op : UnaryOp) (v : Value) : Value :=
  if v.isError then v
  else
    match op with
    | .negate => v.negate
    | .not => ofBool (!v.isTruthy)
    | .stringify => str v.text
    | .baseOf => v.baseOf

/-! ## Arrays -/

/-- The fault of operands that an array operator has no meaning for. -/
def shiftMismatch (op : ShiftOp) (a b : Value) : Value := fail (.operands op.symbol a.kind b.kind)

/-- One array after another. A value that is no array stands for one with that element. -/
def joined (a b : Value) : Value :=
  match a, b with
  | array es ks, array fs ls => ((Items.mk es ks).append ⟨fs, ls⟩).toValue
  | array es ks, b => ((Items.mk es ks).push b).toValue
  | a, array fs ls => ((Items.ofList [a]).append ⟨fs, ls⟩).toValue
  | a, b => ofList [a, b]

/-- Elements sorted up for a positive direction, down for a negative one, and left alone for
zero. -/
def sorted (direction : Integer) (elements : List Value) : List Value :=
  if 0 < direction then Sorting.stable (fun a b => a.arrangeOrder b == .lt) elements
  else if direction < 0 then Sorting.stable (fun a b => b.arrangeOrder a == .lt) elements
  else elements

/-- A sorted array. -/
def arranged (a b : Value) : Value :=
  match b.int?, a with
  | some direction, array es _ => ofList (sorted direction es)
  | _, _ => shiftMismatch .arrange a b

end DiceScript.Value
