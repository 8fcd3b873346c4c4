import DiceScript.Text.LetterTable

/-!
Upper and lower case of letters and of whole texts. Case is Unicode's full case mapping, so one
letter may become several; the ASCII letters are answered without looking at the tables.
-/

namespace DiceScript.Letter

/-- The characters that a code point becomes: its several letters if it is special, else the image
of the run that holds it, else itself. -/
def mapped (special : List (Nat × List Nat)) (runs : List Run) (c : Char) : List Char :=
  match special.lookup c.toNat with
  | some codes => codes.map Char.ofNat
  | none =>
    match runs.findSome? (·.image? c.toNat) with
    | some code => [Char.ofNat code]
    | none => [c]

/-- The upper case of a character. -/
def upper (c : Char) : List Char :=
  if c.toNat < 0x80 then [c.toUpper] else mapped upperSpecial upperRuns c

/-- The lower case of a character that stands alone. -/
def lower (c : Char) : List Char :=
  if c.toNat < 0x80 then [c.toLower] else mapped lowerSpecial lowerRuns c

/-- The upper case of a text. -/
def upperText (cs : List Char) : List Char := cs.flatMap upper

/-- Whether the nearest character that is not looked through has case. -/
def casedNext (cs : List Char) : Bool :=
  match cs.dropWhile (fun c => within ignorable c.toNat) with
  | [] => false
  | c :: _ => within cased c.toNat

/-- The capital sigma. -/
def sigma : Char := Char.ofNat 0x3A3

/-- The lower case of a text whose characters before it, nearest first, are `before`. A capital
sigma at the end of a word takes its final shape. -/
def lowerFrom (before : List Char) : List Char → List Char
  | [] => []
  | c :: rest =>
    let letters :=
      if c = sigma then
        if casedNext before && !casedNext rest then [Char.ofNat 0x3C2] else [Char.ofNat 0x3C3]
      else lower c
    letters ++ lowerFrom (c :: before) rest

/-- The lower case of a text. -/
def lowerText (cs : List Char) : List Char := lowerFrom [] cs

end DiceScript.Letter
