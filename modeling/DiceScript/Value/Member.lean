import DiceScript.Value.Index
import DiceScript.Value.Order

/-!
Members: the properties and methods of values, by their names in lower case. A method that changes
its target gives the changed target as its result.
-/

namespace DiceScript

/-- What a member gives: its result, and the target if that was changed. -/
structure MemberResult where
  result : Value
  updated : Option Value

namespace MemberResult

/-- A result that leaves the target alone. -/
def plain (v : Value) : MemberResult := ⟨v, none⟩

/-- A result that is the changed target. -/
def changed (v : Value) : MemberResult := ⟨v, some v⟩

end MemberResult

namespace Value

open MemberResult

/-- Goes on if a member has the number of arguments it takes. -/
def withArgs {α : Type} (name : String) (args : List Value) (expected : Nat)
    (result : Except Fault α) : Except Fault α :=
  if args.length = expected then result else .error (.argumentCount name expected args.length)

/-- Goes on with the only argument of a member. -/
def withArg {α : Type} (name : String) (args : List Value) (result : Value → Except Fault α) :
    Except Fault α :=
  match args with
  | [arg] => result arg
  | args => .error (.argumentCount name 1 args.length)

/-! ## Arrays -/

/-- One more element of a sum. -/
def addElement (total : Integer) (element : Value) : Except Fault Integer :=
  match element.unwrapPair.int? with
  | none => .error (.notSummable element.unwrapPair.kind)
  | some n =>
    match Integer.add? total n with
    | some sum => .ok sum
    | none => .error .sumOverflow

/-- Whether an element is a value, with or without its key. -/
def holds (needle element : Value) : Bool := element.equal needle || element.unwrapPair.equal needle

/-- The array without the element at an index. -/
def removed (items : Items) (index : Value) : Except Fault Items :=
  match index.int? with
  | none => .error (.notAnIndex index.kind)
  | some i =>
    match (Items.position? i items.size).bind items.remove? with
    | some (_, items) => .ok items
    | none => .error (.outOfBounds i items.size)

/-- The members of arrays. -/
def arrayMember (items : Items) (name : String) (args : List Value) : Except Fault MemberResult :=
  match name with
  | "len" => withArgs name args 0 (.ok (plain (int (Integer.ofSize items.size))))
  | "keys" => withArgs name args 0 (.ok (plain (ofList items.keyValues)))
  | "values" => withArgs name args 0 (.ok (plain (ofList (items.elements.map unwrapPair))))
  | "first" =>
    withArgs name args 0 <|
      match items.elements.head? with
      | some v => .ok (plain v)
      | none => .error (.emptyArray name)
  | "last" =>
    withArgs name args 0 <|
      match items.elements.getLast? with
      | some v => .ok (plain v)
      | none => .error (.emptyArray name)
  | "sum" =>
    withArgs name args 0 ((items.elements.foldlM addElement 0).map fun n => plain (int n))
  | "has" =>
    withArg name args fun needle => .ok (plain (ofBool (items.elements.any (holds needle))))
  | "insert" => withArg name args fun v => .ok (changed (items.push v).toValue)
  | "append" =>
    withArg name args fun
      | array es ks => .ok (changed (items.append ⟨es, ks⟩).toValue)
      | other => .error (.notAppendable other.kind)
  | "remove" =>
    withArg name args fun index => (removed items index).map fun items => changed items.toValue
  | _ => .error (.notMember name "array")

/-! ## Stats -/

/-- The members of stats. A negated bonus turns adding into removing and the other way round. -/
def statMember (s : Stat) (name : String) (args : List Value) : Except Fault MemberResult :=
  match name with
  | "base" => withArgs name args 0 (.ok (plain (int s.base)))
  | "value" =>
    withArgs name args 0 <|
      match s.value? with
      | some n => .ok (plain (int n))
      | none => .error (.statOverflow s.base)
  | "bonus" =>
    withArgs name args 0 <|
      match s.bonusTotal? with
      | some n => .ok (plain (int n))
      | none => .error .bonusOverflow
  | "bonuses" =>
    withArgs name args 0
      (.ok (plain (ofList ((s.bonusList ++ s.overriding.toList).map bonus))))
  | "add" =>
    withArg name args fun
      | bonus b => .ok (changed (stat (s.add b)))
      | removal b => .ok (changed (stat (s.remove b)))
      | other => .error (.notABonus name other.kind)
  | "remove" =>
    withArg name args fun
      | bonus b => .ok (changed (stat (s.remove b)))
      | removal b => .ok (changed (stat (s.add b)))
      | other => .error (.notABonus name other.kind)
  | _ => .error (.notMember name "stat")

/-! ## All other values -/

/-- A property of a bonus. -/
def bonusProperty? (b : Bonus) : String → Option Value
  | "name" => some (str b.name)
  | "type" => some (str b.type.name)
  | "value" => some (int b.value)
  | _ => none

/-- A property of a value that is neither array nor stat. -/
def property? (v : Value) (name : String) : Option Value :=
  match v, name with
  | pair key _, "key" => some key
  | pair _ value, "value" => some value
  | range r, "lower" => some (int r.lower)
  | range r, "upper" => some (int r.upper)
  | range r, "len" =>
    match r.length? with
    | some n => some (int n)
    | none => some (fail (.rangeTooLarge r.text))
  | str s, "len" => some (int (Integer.ofSize s.length))
  | str s, "upper" => some (str (String.ofList (Letter.upperText s.toList)))
  | str s, "lower" => some (str (String.ofList (Letter.lowerText s.toList)))
  | function f, "params" => some (ofList (f.params.map str))
  | bonus b, name => bonusProperty? b name
  | removal b, name => bonusProperty? b name
  | _, _ => none

/-- A member of a value that is no stored expression. -/
def member (v : Value) (name : String) (args : List Value) : Except Fault MemberResult :=
  match v with
  | array es ks => arrayMember ⟨es, ks⟩ name args
  | stat s => statMember s name args
  | other =>
    match other.property? name with
    | some result => withArgs name args 0 (.ok (plain result))
    | none => .error (.notMember name other.kind)

end Value

end DiceScript
