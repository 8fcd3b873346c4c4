/-!
Blank characters, which separate the words of a name and are trimmed from the ends of a text. A
character is blank when Unicode gives it the property `White_Space`.
-/

namespace DiceScript.Text

/-- The code points with the property `White_Space`, as closed intervals. -/
def blankIntervals : List (Nat × Nat) := [
  (0x09, 0x0D), (0x20, 0x20), (0x85, 0x85), (0xA0, 0xA0), (0x1680, 0x1680), (0x2000, 0x200A),
  (0x2028, 0x2029), (0x202F, 0x202F), (0x205F, 0x205F), (0x3000, 0x3000)]

/-- Whether a character separates words. -/
def isBlank (c : Char) : Bool :=
  blankIntervals.any fun (first, last) => first ≤ c.toNat && c.toNat ≤ last

/-- A text without the blanks at its ends. -/
def trim (cs : List Char) : List Char :=
  (((cs.dropWhile isBlank).reverse).dropWhile isBlank).reverse

/-- Puts a character in front of the first word, or starts a word with it when a blank came
between. -/
def consWord (c : Char) (rest : List Char) : List (List Char) → List (List Char)
  | [] => [[c]]
  | w :: ws => if (rest.head?.map isBlank).getD true then [c] :: w :: ws else (c :: w) :: ws

/-- The maximal runs of characters that are not blank, in order. -/
def words : List Char → List (List Char)
  | [] => []
  | c :: rest => if isBlank c then words rest else consWord c rest (words rest)

end DiceScript.Text
