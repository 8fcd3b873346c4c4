import DiceScript.Name
import DiceScript.Value

/-!
The items of an array: elements in order, and aliases for those that are pairs. The aliases follow
from the elements: the normal form of a key stands for the first pair with that key.
-/

namespace DiceScript

namespace Aliases

/-- Gives a position a name, unless the name is taken. -/
def register (table : Aliases) (name : String) (position : Nat) : Aliases :=
  if (table.lookup name).isSome then table else table ++ [(name, position)]

/-- The name of an element that has a key. -/
def nameOf (key : Value) : String := Name.normalize key.text

/-- Registers the pairs among elements that begin at a position. -/
def registerAll (table : Aliases) (position : Nat) : List Value → Aliases
  | [] => table
  | .pair key _ :: rest => registerAll (table.register (nameOf key) position) (position + 1) rest
  | _ :: rest => registerAll table (position + 1) rest

/-- The aliases of elements, if there is a pair among them. -/
def ofElements (elements : List Value) : Option Aliases :=
  match registerAll [] 0 elements with
  | [] => none
  | table => some table

/-- Aliases in the order of their positions. -/
def ofEntries (entries : List (String × Nat)) : Aliases :=
  Sorting.stable (fun a b => decide (a.2 < b.2)) entries

end Aliases

/-- The elements of an array and their aliases. -/
structure Items where
  elements : List Value
  keys : Option Aliases

namespace Items

/-- The items with the given elements, and the aliases that follow from them. -/
def ofList (elements : List Value) : Items := ⟨elements, Aliases.ofElements elements⟩

/-- The array of items. -/
def toValue (a : Items) : Value := .array a.elements a.keys

def size (a : Items) : Nat := a.elements.length

/-! ## Finding -/

/-- The position that an index means among some number of places. A negative index counts from the
end. -/
def position? (index : Integer) (length : Nat) : Option Nat :=
  let position := if index.toInt < 0 then length + index.toInt else index.toInt
  if 0 ≤ position ∧ position < length then some position.toNat else none

/-- The position of the element with a key. -/
def keyPosition? (a : Items) (key : String) : Option Nat :=
  a.keys.bind (·.lookup (Name.normalize key))

/-- The value stored under a key. -/
def getKey? (a : Items) (key : String) : Option Value :=
  (a.keyPosition? key).bind fun position => (a.elements[position]?).map Value.unwrapPair

/-- The keys of the pairs, in order. -/
def keyValues (a : Items) : List Value := a.elements.filterMap fun e => e.splitPair.1

/-! ## Changing -/

/-- Puts an element at the end. A pair is registered unless its name is taken. -/
def push (a : Items) (v : Value) : Items :=
  let keys := match v with
    | .pair key _ => some ((a.keys.getD []).register (Aliases.nameOf key) a.size)
    | _ => a.keys
  ⟨a.elements ++ [v], keys⟩

/-- Puts other items after these. -/
def append (a b : Items) : Items := ofList (a.elements ++ b.elements)

/-- Puts another element at a position. -/
def set (a : Items) (position : Nat) (v : Value) : Items := ofList (a.elements.set position v)

/-- Puts another element at a position, if the position is taken. -/
def replace? (a : Items) (position : Nat) (v : Value) : Option Items :=
  if position < a.size then some (a.set position v) else none

/-- Takes out the element at a position, if the position is taken. -/
def remove? (a : Items) (position : Nat) : Option (Value × Items) :=
  (a.elements[position]?).map fun v => (v, ofList (a.elements.eraseIdx position))

end Items

/-- The array with the given elements. -/
def Value.ofList (elements : List Value) : Value := (Items.ofList elements).toValue

end DiceScript
