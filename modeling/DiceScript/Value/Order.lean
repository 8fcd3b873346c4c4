import DiceScript.Value

/-!
Comparing values: equality as scripts see it, strict sameness, the order of numbers and strings, and
the order in which arrays are sorted.
-/

namespace DiceScript.Value

mutual

/-- Equality as scripts see it. Values that count as numbers are compared as numbers, all others
part by part. -/
def equal (a b : Value) : Bool :=
  match a.int?, b.int? with
  | some m, some n => m == n
  | _, _ =>
    match a, b with
    | str s, str t => s == t
    | array es _, array fs _ => equalAll es fs
    | pair k v, pair l w => k.equal l && v.equal w
    | range r, range s => r == s
    | function f, function g => f == g
    | expression s, expression t => s == t
    | symbol s, symbol t => s == t
    | bonus b, bonus c => b == c
    | removal b, removal c => b == c
    | error m, error n => m == n
    | _, _ => false

/-- Whether two lists have as many elements, equal one by one. -/
def equalAll : List Value → List Value → Bool
  | [], [] => true
  | v :: vs, w :: ws => v.equal w && equalAll vs ws
  | _, _ => false

end

mutual

/-- Sameness: like equality, but a stat is only the same as a stat with the same base and
bonuses. -/
def same (a b : Value) : Bool :=
  match a, b with
  | stat s, stat t =>
    s.base == t.base && s.bonusList == t.bonusList && s.overriding == t.overriding
  | stat _, _ | _, stat _ => false
  | array es _, array fs _ => sameAll es fs
  | pair k v, pair l w => k.same l && v.same w
  | a, b => a.equal b

/-- Whether two lists have as many elements, the same one by one. -/
def sameAll : List Value → List Value → Bool
  | [], [] => true
  | v :: vs, w :: ws => v.same w && sameAll vs ws
  | _, _ => false

end

/-- The order of two numbers or two strings. Other values have none. -/
def order? (a b : Value) : Option Ordering :=
  match a.int?, b.int? with
  | some m, some n => some (compare m n)
  | _, _ =>
    match a, b with
    | str s, str t => some (compare s t)
    | _, _ => none

/-- The place of a kind of value in a sorted array: numbers, then strings, then all else. -/
def rank : Value → Nat
  | int _ | stat _ => 0
  | str _ => 1
  | _ => 2

/-- The order of a sorted array. Values without an order of their own go by kind and then by text;
pairs go by their values. -/
def arrangeOrder (a b : Value) : Ordering :=
  let a := a.unwrapPair
  let b := b.unwrapPair
  (a.order? b).getD ((compare a.rank b.rank).then (compare a.text b.text))

end DiceScript.Value
