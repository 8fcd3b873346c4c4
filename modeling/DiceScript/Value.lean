import DiceScript.Fault
import DiceScript.Range
import DiceScript.Stat

/-!
Values: what expressions evaluate to. Values are plain data that is copied and never shared. An
error is a value like any other.
-/

namespace DiceScript

/-- A function that a script defines. The body is text, which is read again at every call. -/
structure Function where
  params : List String
  body : String
  deriving DecidableEq, Repr

/-- The function as text. -/
def Function.text (f : Function) : String :=
  "(" ++ String.intercalate ", " f.params ++ ") => \x7b " ++ f.body ++ " \x7d"

/-- The names by which elements of an array are found, each with the position of its element. -/
abbrev Aliases := List (String × Nat)

/-- A value. -/
inductive Value
  | int (n : Integer)
  | str (s : String)
  | array (elements : List Value) (keys : Option Aliases)
  | pair (key value : Value)
  | range (r : Range)
  | function (f : Function)
  /-- The text of an expression that has not been evaluated. -/
  | expression (text : String)
  | symbol (text : String)
  | stat (s : Stat)
  | bonus (b : Bonus)
  /-- A negated bonus, which takes the bonus off a stat. -/
  | removal (b : Bonus)
  | error (message : String)

namespace Value

/-! ## Looking at values -/

/-- What kind of value it is, as messages call it. -/
def kind : Value → String
  | int _ => "integer"
  | str _ => "string"
  | array .. => "array"
  | pair .. => "pair"
  | range _ => "range"
  | function _ => "function"
  | expression _ => "expression"
  | symbol _ => "symbol"
  | stat _ => "stat"
  | bonus _ => "bonus"
  | removal _ => "bonus removal"
  | error _ => "error"

/-- The value of a fault. -/
def fail (f : Fault) : Value := error f.message

/-- The value of a truth. -/
def ofBool (b : Bool) : Value := int (if b then 1 else 0)

/-- The number that a value counts as: an integer itself, a stat its value if that fits. -/
def int? : Value → Option Integer
  | int n => some n
  | stat s => s.value?
  | _ => none

def str? : Value → Option String
  | str s => some s
  | _ => none

def isError : Value → Bool
  | error _ => true
  | _ => false

def isArray : Value → Bool
  | array .. => true
  | _ => false

def isPair : Value → Bool
  | pair .. => true
  | _ => false

def isFunction : Value → Bool
  | function _ => true
  | _ => false

def isStat : Value → Bool
  | stat _ => true
  | _ => false

def isBonus : Value → Bool
  | bonus _ => true
  | _ => false

/-- Whether a condition takes the value for true. -/
def isTruthy : Value → Bool
  | int n => n != 0
  | stat s => s.value != 0
  | str s => !s.isEmpty
  | array elements _ => !elements.isEmpty
  | error _ => false
  | _ => true

/-- The value of a pair, and any other value itself. -/
def unwrapPair : Value → Value
  | pair _ value => value
  | other => other

/-- The key of a pair and its value; any other value has no key. -/
def splitPair : Value → Option Value × Value
  | pair key value => (some key, value)
  | other => (none, other)

/-- A pair of a key and a value, or the value alone. -/
def joinPair : Option Value → Value → Value
  | some key, value => pair key value
  | none, value => value

/-! ## Text -/

mutual

/-- The text of a value. Inside another value a string has its quotes. -/
def textWithin (nested : Bool) : Value → String
  | int n => n.text
  | str s => if nested then "\"" ++ s ++ "\"" else s
  | array elements _ => "[" ++ String.intercalate ", " (texts elements) ++ "]"
  | pair key value => key.textWithin true ++ ": " ++ value.textWithin true
  | range r => r.text
  | function f => f.text
  | expression text => "`" ++ text ++ "`"
  | symbol text => text
  | stat s => s.text
  | bonus b => b.text
  | removal b => "-(" ++ b.text ++ ")"
  | error message => message

/-- The texts of the elements of an array. -/
def texts : List Value → List String
  | [] => []
  | v :: vs => v.textWithin true :: texts vs

end

/-- The text of a value that stands alone. -/
def text (v : Value) : String := v.textWithin false

end Value

end DiceScript
