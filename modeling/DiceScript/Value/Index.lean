import DiceScript.Value.Items

/-!
Indexing: the elements of arrays, the characters of strings and the integers of ranges.
-/

namespace DiceScript.Value

/-- The parts of a list at the indices of a range, or the first index that is out of bounds. Only
twice as many indices as there are parts can be within bounds, so no more need to be looked at than
one beyond those. -/
def slice {α : Type} (parts : List α) (r : Range) : Except Fault (List α) :=
  (r.take (2 * parts.length + 1)).mapM fun i =>
    match (Items.position? i parts.length).bind (parts[·]?) with
    | some part => .ok part
    | none => .error (.outOfBounds i parts.length)

/-- The part of a list at an index. -/
def part {α : Type} (parts : List α) (i : Integer) : Except Fault α :=
  match (Items.position? i parts.length).bind (parts[·]?) with
  | some part => .ok part
  | none => .error (.outOfBounds i parts.length)

/-- The part of a container at an index that is no mark. -/
def at? (container index : Value) : Except Fault Value :=
  match container, index with
  | array es _, int i => part es i
  | array es ks, str key =>
    match (Items.mk es ks).getKey? key with
    | some v => .ok v
    | none => .error (.keyNotFound key)
  | array es _, range r => (slice es r).map ofList
  | str s, int i => (part s.toList i).map fun c => str (String.singleton c)
  | str s, range r => (slice s.toList r).map fun cs => str (String.ofList cs)
  | range r, int i =>
    match r.get? i with
    | some n => .ok (int n)
    | none => .error (.outOfRange i r.text)
  | container, index => .error (.notIndexable container.kind index.kind)

/-- The mark that counts the parts of a container. -/
def countMark : String := "#"

/-- The mark that picks a part at random. -/
def randomMark : String := "~"

/-- The number of parts of a container, asked for by a mark. -/
def partCount (container : Value) (mark : String) : Except Fault Integer :=
  match container with
  | array es _ => .ok (Integer.ofSize es.length)
  | str s => .ok (Integer.ofSize s.length)
  | range r => r.length?.elim (.error (.rangeTooLarge r.text)) .ok
  | other => .error (.notIndexable other.kind mark)

end DiceScript.Value
