/-!
A stable sort by insertion. Elements are read from left to right, and each settles to the right of
all those it does not precede.
-/

namespace DiceScript.Sorting

/-- Puts an element into a list that is sorted with the last element first. -/
def settle {α : Type} (precedes : α → α → Bool) (x : α) : List α → List α
  | [] => [x]
  | y :: ys => if precedes x y then y :: settle precedes x ys else x :: y :: ys

/-- Sorts a list; `precedes x y` says that `x` belongs strictly before `y`. -/
def stable {α : Type} (precedes : α → α → Bool) (xs : List α) : List α :=
  (xs.foldl (fun sorted x => settle precedes x sorted) []).reverse

/-- The first element of each key, in order. -/
def firstOfEach {α β : Type} [BEq β] (key : α → β) (xs : List α) : List α :=
  xs.foldl (fun kept x => if kept.any (fun y => key y == key x) then kept else kept ++ [x]) []

end DiceScript.Sorting
