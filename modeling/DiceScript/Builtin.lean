import DiceScript.Roller
import DiceScript.Value

/-!
Built-in functions. All of them take integers and give an integer.
-/

namespace DiceScript

inductive Builtin
  | abs
  | clamp
  | ifOne
  | max
  | min
  | mod
  | rand
  | bad
  | good
  | tq
  | oh
  | th
  deriving DecidableEq, Repr

namespace Builtin

/-- The built-in function with a name in lower case. -/
def ofName? : String → Option Builtin
  | "abs" => some abs
  | "clamp" => some clamp
  | "if" => some ifOne
  | "max" => some max
  | "min" => some min
  | "mod" => some mod
  | "rand" => some rand
  | "bad" => some bad
  | "good" => some good
  | "tq" => some tq
  | "oh" => some oh
  | "th" => some th
  | _ => none

def name : Builtin → String
  | abs => "abs"
  | clamp => "clamp"
  | ifOne => "if"
  | max => "max"
  | min => "min"
  | mod => "mod"
  | rand => "rand"
  | bad => "bad"
  | good => "good"
  | tq => "tq"
  | oh => "oh"
  | th => "th"

/-! ## Arguments -/

/-- What is wrong with the number of arguments, if anything is. -/
def arityFault? (b : Builtin) (count : Nat) : Option Fault :=
  let exactly (n : Nat) : Option Fault :=
    if count = n then none else some (.argumentCount b.name n count)
  match b with
  | max | min => if 1 ≤ count then none else some (.argumentsBelow b.name 1 count)
  | clamp => exactly 3
  | ifOne | rand => exactly 2
  | _ => exactly 1

/-- The number that an argument counts as, or the message of what is wrong with it. -/
def number (b : Builtin) (v : Value) : Except String Integer :=
  match v with
  | .error message => .error message
  | v =>
    match v.int? with
    | some n => .ok n
    | none => .error (Fault.notIntegers b.name v.kind).message

/-! ## Results -/

/-- A result that must fit. -/
def fits (b : Builtin) : Option Integer → Except Fault Integer
  | some n => .ok n
  | none => .error (.builtinOverflow b.name)

/-- The modifier of an ability score: half of what it has beyond ten, rounded down, at least minus
five. -/
def modifier? (score : Integer) : Option Integer :=
  let excess := if 10 ≤ score then Integer.sub? score 10 else Integer.sub? score 11
  excess.map fun n => Max.max (n.quotient 2) (-5)

/-- The result of a function that rolls no dice, on as many arguments as it takes. -/
def compute (b : Builtin) (args : List Integer) : Except Fault Integer :=
  match b, args with
  | abs, [n] => b.fits n.abs?
  | clamp, [n, least, greatest] =>
    if greatest < least then .error (.clampBounds least greatest)
    else .ok (Min.min (Max.max n least) greatest)
  | ifOne, [test, n] => .ok (if test = 1 then n else 0)
  | max, n :: rest => .ok (rest.foldl Max.max n)
  | min, n :: rest => .ok (rest.foldl Min.min n)
  | mod, [score] => b.fits (modifier? score)
  | bad, [level] => .ok (level.quotient 3)
  | good, [level] => b.fits (Integer.add? (level.quotient 2) 2)
  | tq, [n] => b.fits ((Integer.add? n (n.quotient 2)).map (·.quotient 2))
  | oh, [n] => .ok (n.quotient 2)
  | th, [n] => b.fits (Integer.add? n (n.quotient 2))
  | _, _ => .ok 0

/-- The result of a function on as many arguments as it takes. -/
def run {σ : Type} (roller : Roller σ) (b : Builtin) (args : List Integer) :
    StateM (Tray σ) (Except Fault Integer) :=
  match b, args with
  | rand, [lower, upper] =>
    if upper < lower then return .error (.randomBounds lower upper)
    else do return .ok (← roller.ask lower upper)
  | b, args => return b.compute args

/-- Calls a function with any arguments. -/
def call {σ : Type} (roller : Roller σ) (b : Builtin) (args : List Value) :
    StateM (Tray σ) Value := do
  match b.arityFault? args.length with
  | some f => return .fail f
  | none =>
    match args.mapM b.number with
    | .error message => return .error message
    | .ok numbers =>
      match ← b.run roller numbers with
      | .ok n => return .int n
      | .error f => return .fail f

end Builtin

end DiceScript
