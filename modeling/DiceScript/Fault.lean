import DiceScript.Integer

/-!
Faults: what can go wrong while a script runs, and how it is said. Kinds of values and expressions
enter by the names that messages give them.
-/

namespace DiceScript

/-- Why a script could not get a value. -/
inductive Fault
  | notFound (name : String)
  | noGlobal (name : String)
  | depthLimit (limit : Nat)
  | outOfBounds (index : Integer) (length : Nat)
  | outOfRange (index : Integer) (range : String)
  | keyNotFound (key : String)
  | rangeTooLarge (range : String)
  | notIndexable (container index : String)
  | emptyPick (kind : String)
  | unknownMark (mark : String)
  | notMember (name kind : String)
  | emptyArray (member : String)
  | notSummable (kind : String)
  | sumOverflow
  | notAppendable (kind : String)
  | notAnIndex (kind : String)
  | notABonus (member kind : String)
  | argumentCount (name : String) (expected got : Nat)
  | argumentsBelow (name : String) (least got : Nat)
  | notCallable (kind : String)
  | elementFunction (operator : String) (params : Nat)
  | notIntegers (name kind : String)
  | builtinOverflow (name : String)
  | clampBounds (least greatest : Integer)
  | randomBounds (lower upper : Integer)
  | onlyVariables
  | notAssignableThrough (kind : String)
  | notAssignableInto (container index : String)
  | notIterable (kind : String)
  | noSides (dice : String)
  | negativeRepeat (dice : String) (times : Integer)
  | notRepeatable (dice kind : String)
  | repeatOverflow (dice : String)
  | bonusValue (kind : String)
  | unknownBonusType (name : String)
  | notABonusType (kind : String)
  | notAStat (name : String)
  | noBonuses (kind : String)
  | statOverflow (base : Integer)
  | bonusOverflow
  | operands (operator left right : String)
  | divisionByZero
  | overflow (left : Integer) (operator : String) (right : Integer)
  | notNegatable (kind : String)
  | noBase (kind : String)
  | notApplicable (operator : String)
  deriving DecidableEq, Repr

/-- The message of a fault. -/
def Fault.message : Fault → String
  | notFound name => name ++ " not found"
  | noGlobal name => "no global found for " ++ name
  | depthLimit limit => "maximum depth of " ++ Decimal.text limit ++ " reached"
  | outOfBounds index length =>
    "index " ++ index.text ++ " is out of bounds: array length is " ++ Decimal.text length
  | outOfRange index range => "index " ++ index.text ++ " is out of bounds for range " ++ range
  | keyNotFound key => "key " ++ key ++ " not found"
  | rangeTooLarge range => "range " ++ range ++ " has too many values to count"
  | notIndexable container index => "cannot index " ++ container ++ " with " ++ index
  | emptyPick kind => "cannot pick from an empty " ++ kind
  | unknownMark mark => "unknown index symbol '" ++ mark ++ "'"
  | notMember name kind => name ++ " is not a member of " ++ kind
  | emptyArray member => member ++ " of an empty array"
  | notSummable kind => "cannot sum " ++ kind
  | sumOverflow => "integer overflow in sum"
  | notAppendable kind => "append expects an array, got " ++ kind
  | notAnIndex kind => "remove expects an index, got " ++ kind
  | notABonus member kind => member ++ " expects a bonus, got " ++ kind
  | argumentCount name expected got =>
    name ++ " expects " ++ Decimal.text expected ++ " arguments but got " ++ Decimal.text got
  | argumentsBelow name least got =>
    name ++ " expects at least " ++ Decimal.text least ++ " arguments but got " ++ Decimal.text got
  | notCallable kind => kind ++ " is not callable"
  | elementFunction operator params =>
    "function for '" ++ operator ++ "' takes at most 2 parameters but has " ++ Decimal.text params
  | notIntegers name kind => name ++ " expects integer arguments, got " ++ kind
  | builtinOverflow name => name ++ ": integer overflow"
  | clampBounds least greatest =>
    "clamp: minimum " ++ least.text ++ " is greater than maximum " ++ greatest.text
  | randomBounds lower upper =>
    "rand: lower bound " ++ lower.text ++ " is greater than upper bound " ++ upper.text
  | onlyVariables => "'^=' only applies to variables"
  | notAssignableThrough kind => "cannot assign through a " ++ kind ++ " expression"
  | notAssignableInto container index => "cannot assign into " ++ container ++ " with " ++ index
  | notIterable kind => "cannot iterate over " ++ kind
  | noSides dice => "cannot roll " ++ dice ++ ": a die needs at least one side"
  | negativeRepeat dice times => "cannot repeat " ++ dice ++ " " ++ times.text ++ " times"
  | notRepeatable dice kind => "cannot repeat " ++ dice ++ " by " ++ kind
  | repeatOverflow dice => "integer overflow repeating " ++ dice
  | bonusValue kind => "a bonus value must be an integer, got " ++ kind
  | unknownBonusType name => "unknown bonus type " ++ name
  | notABonusType kind => "a bonus type must be a name or a number, got " ++ kind
  | notAStat name => name ++ " is not a stat"
  | noBonuses kind => "cannot read a bonus from " ++ kind
  | statOverflow base => "integer overflow in stat with base " ++ base.text
  | bonusOverflow => "integer overflow in bonus total"
  | operands operator left right =>
    "cannot apply '" ++ operator ++ "' to " ++ left ++ " and " ++ right
  | divisionByZero => "division by zero"
  | overflow left operator right =>
    "integer overflow in " ++ left.text ++ " " ++ operator ++ " " ++ right.text
  | notNegatable kind => "cannot negate " ++ kind
  | noBase kind => kind ++ " has no base"
  | notApplicable operator => "cannot apply '" ++ operator ++ "' here"

end DiceScript
