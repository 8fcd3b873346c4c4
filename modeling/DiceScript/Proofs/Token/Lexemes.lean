import DiceScript.Token.Scan
import Mathlib

/-!
The tokens of a text as its characters tell them. A token is split off a list of characters and has
the characters it is written with for its text, where the tokenizer measures it in bytes ahead and
cuts it out by its places. Both come to the same tokens as long as places can be told apart.
-/

namespace DiceScript.Token

/-! ## Dice -/

/-- The number of digits that a text begins with, at most three. -/
def digitRun (cs : List Char) : Nat := ((cs.take 3).takeWhile Decimal.isDigit).length

/-- The length of the dice modifier that a text begins with, zero without one. -/
def modifierLength : List Char → Nat
  | [] => 0
  | c :: rest =>
    if (c = 'r' || c = 'h' || c = 'l') && digitRun rest ≠ 0 then 1 + digitRun rest else 0

/-- The length of the dice literal that a text begins with. -/
def diceLength? (cs : List Char) : Option Nat :=
  let count := digitRun cs
  match cs.drop count with
  | 'd' :: rest =>
    let sides := digitRun rest
    if sides = 0 then none
    else
      let first := modifierLength (rest.drop sides)
      let second := modifierLength (rest.drop (sides + first))
      let length := count + 1 + sides + first + second
      if (cs.drop length).head?.any isWordChar then none else some length
  | _ => none

/-! ## Literals -/

/-- A literal that has been read: what it contains, and the characters after its opening delimiter
that it is written with. -/
structure Literal where
  contents : List Char
  written : List Char
  rest : List Char
  deriving Repr

/-- Puts characters in front of a literal. -/
def Literal.cons (contents written : List Char) (l : Literal) : Literal :=
  { l with contents := contents ++ l.contents, written := written ++ l.written }

/-- Reads a literal up to its closing delimiter, if it has one. A backslash keeps its meaning only
before the delimiter and before another backslash, where it stands for that character. -/
def literalAt? (delimiter : Char) : List Char → Option Literal
  | [] => none
  | c :: rest =>
    if c = delimiter then some ⟨[], [c], rest⟩
    else if c = '\\' then
      match rest with
      | [] => none
      | d :: rest' =>
        if d = delimiter || d = '\\' then (literalAt? delimiter rest').map (.cons [d] [c, d])
        else (literalAt? delimiter (d :: rest')).map (.cons [c] [c])
    else (literalAt? delimiter rest).map (.cons [c] [c])

section

variable {delimiter c : Char}

theorem literalAt?_delimiter (rest : List Char) :
    literalAt? delimiter (delimiter :: rest) = some ⟨[], [delimiter], rest⟩ := by
  unfold literalAt?
  rw [if_pos rfl]

theorem literalAt?_ordinary (hc : c ≠ delimiter) (hslash : c ≠ '\\') (rest : List Char) :
    literalAt? delimiter (c :: rest) = (literalAt? delimiter rest).map (.cons [c] [c]) := by
  conv_lhs => unfold literalAt?
  rw [if_neg hc, if_neg hslash]

theorem literalAt?_backslash (hne : '\\' ≠ delimiter) : literalAt? delimiter ['\\'] = none := by
  unfold literalAt?
  rw [if_neg hne, if_pos rfl]

/-- A backslash and the character it gives a meaning of its own. -/
theorem literalAt?_escaped (hne : '\\' ≠ delimiter) (hc : (c = delimiter || c = '\\') = true)
    (rest : List Char) :
    literalAt? delimiter ('\\' :: c :: rest) =
      (literalAt? delimiter rest).map (.cons [c] ['\\', c]) := by
  conv_lhs => unfold literalAt?
  simp only [if_neg hne, if_true, hc]

/-- A backslash that stands for itself. -/
theorem literalAt?_unescaped (hne : '\\' ≠ delimiter) (hc : ¬ (c = delimiter || c = '\\') = true)
    (rest : List Char) :
    literalAt? delimiter ('\\' :: c :: rest) =
      (literalAt? delimiter (c :: rest)).map (.cons ['\\'] ['\\']) := by
  conv_lhs => unfold literalAt?
  simp only [if_neg hne, if_true, if_neg hc]

end

/-! ## Whole texts -/

/-- A token before it has a place: its kind and text, the characters it is written with, and those
after it. -/
structure Lexeme where
  kind : TokenKind
  text : String
  written : List Char
  rest : List Char
  deriving Repr

/-- The lexeme whose text is what it is written with, the first `n` characters of a text. -/
def Lexeme.plain (kind : TokenKind) (n : Nat) (cs : List Char) : Lexeme :=
  ⟨kind, String.ofList (cs.take n), cs.take n, cs.drop n⟩

/-- The lexeme of a literal with its opening delimiter in front of `rest`. One that is never closed
reaches to the end. -/
def Lexeme.delimited (kind : TokenKind) (delimiter : Char) (rest : List Char) : Lexeme :=
  match literalAt? delimiter rest with
  | some l => ⟨kind, String.ofList l.contents, delimiter :: l.written, l.rest⟩
  | none => plain .unknown (rest.length + 1) (delimiter :: rest)

/-- The first lexeme of a text that begins with `c`, which is no separator. -/
def lexeme (c : Char) (rest : List Char) : Lexeme :=
  let cs := c :: rest
  if c = '"' then .delimited .string c rest
  else if c = '\x60' then .delimited .stored c rest
  else
    match diceLength? cs with
    | some n => .plain .dice n cs
    | none =>
      if isWordStart c then
        let word := cs.takeWhile isWordChar
        .plain (wordKind word) word.length cs
      else if Decimal.isDigit c then .plain .integer (cs.takeWhile Decimal.isDigit).length cs
      else
        match markAt? cs with
        | some (mark, kind) => .plain kind mark.length cs
        | none => .plain .unknown 1 cs

/-- The tokens of a text that begins at a place, and the place where it ends. The first argument
bounds the number of lexemes and separators. -/
def lexFrom : Nat → Position → List Char → List Token × Position
  | _, p, [] => ([], p)
  | 0, p, _ :: _ => ([], p)
  | n + 1, p, c :: cs =>
    if isSeparator c then lexFrom n (p.next c) cs
    else
      let l := lexeme c cs
      let q := p.advance l.written
      let (tokens, last) := lexFrom n q l.rest
      (⟨l.kind, l.text, ⟨p, q⟩⟩ :: tokens, last)

/-- The tokens of a text and the place where it ends. -/
def lex (cs : List Char) : List Token × Position := lexFrom cs.length .start cs

/-- The token that marks the end of a text. -/
def finishAt (p : Position) : Token := ⟨.finish, "", ⟨p, p⟩⟩

/-- The tokens of a text, closed by one that marks the end. -/
def lexed (text : String) : List Token := (lex text.toList).1 ++ [finishAt (lex text.toList).2]

end DiceScript.Token
