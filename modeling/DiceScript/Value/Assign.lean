import DiceScript.Value.Operators

/-!
What an assignment stores: the new value of a variable, and the new value of an array of which one
slot is assigned.
-/

namespace DiceScript.Value

/-- What an assignment makes of a stat. An integer changes the base and keeps the bonuses, and a
bonus is put on or taken off. -/
def assignedStat (op : AssignOp) (s : Stat) (v : Value) : Value :=
  match op, v with
  | .set, int base => stat (s.setBase base)
  | .set, v => v
  | .add, bonus b => stat (s.add b)
  | .subtract, bonus b | .add, removal b => stat (s.remove b)
  | .subtract, removal b => stat (s.add b)
  | op, int amount =>
    match op.arithmetic? with
    | some binary =>
      match calculate binary s.base amount with
      | .ok base => stat (s.setBase base)
      | .error f => fail f
    | none => fail (.notApplicable op.symbol)
  | op, v => fail (.operands op.symbol "stat" v.kind)

/-- The value that an assignment stores in place of the current one. -/
def assigned (op : AssignOp) (current v : Value) : Value :=
  match current with
  | stat s => assignedStat op s v
  | current =>
    match op.arithmetic?, op with
    | some operator, _ => binary operator current v
    | none, .set => v
    | none, op => fail (.notApplicable op.symbol)

/-- Where an index leads in an array. -/
inductive Slot
  /-- The position of an element. -/
  | element (position : Nat)
  /-- The end of the array, for a key that no element has. -/
  | missing (key : String)

/-- The slot of an array that an index means. -/
def slot (items : Items) : Value → Except Fault Slot
  | int i =>
    match Items.position? i items.size with
    | some position => .ok (.element position)
    | none => .error (.outOfBounds i items.size)
  | str key =>
    match items.keyPosition? key with
    | some position => .ok (.element position)
    | none => .ok (.missing key)
  | index => .error (.notAssignableInto "array" index.kind)

/-- Assigns through indices into nested arrays. The answer is the updated container and the assigned
value, or the message of what went wrong. A key of the element on the way is kept, unless a pair
takes the place of the whole element. -/
def assignPath (container : Value) (op : AssignOp) (v : Value) :
    List Value → Except String (Value × Value)
  | [] =>
    match assigned op container v with
    | error message => .error message
    | updated => .ok (updated, updated)
  | index :: rest =>
    match container with
    | array elements keys =>
      let items : Items := ⟨elements, keys⟩
      match slot items index with
      | .error f => .error f.message
      | .ok (.missing key) =>
        if rest.isEmpty && op == .set then .ok ((items.push (pair (str key) v)).toValue, v)
        else .error (Fault.keyNotFound key).message
      | .ok (.element position) =>
        match elements[position]? with
        | none => .error (Fault.keyNotFound index.text).message
        | some element =>
          let whole := rest.isEmpty && op == .set && v.isPair
          let (key, inner) := if whole then (none, element) else element.splitPair
          match assignPath inner op v rest with
          | .error message => .error message
          | .ok (updated, result) =>
            .ok ((items.set position (joinPair key updated)).toValue, result)
    | other => .error (Fault.notAssignableInto other.kind index.kind).message

end DiceScript.Value
