import DiceScript.Token

/-!
Reading the tokens of a text. Every text can be read, if it is short enough for its places to be
counted: a character that begins no token is a token of its own kind, and so is a literal that is
never closed. A token is the longest that its first characters allow. The text of a token is cut out
of the source by the places where the token begins and ends.
-/

namespace DiceScript.Token

/-! ## Characters -/

/-- Whether a character only separates tokens. -/
def isSeparator (c : Char) : Bool := c = ' ' || c = '\t' || c = '\n' || c = '\r'

/-- Whether a character can begin an identifier. -/
def isWordStart (c : Char) : Bool := ('a' ≤ c && c ≤ 'z') || ('A' ≤ c && c ≤ 'Z') || c = '_'

/-- Whether a character can stand inside an identifier. -/
def isWordChar (c : Char) : Bool := Decimal.isDigit c || isWordStart c

/-! ## Marks and words -/

/-- The marks, with no mark in front of a longer one that begins with it. -/
def marks : List (List Char × TokenKind) := [
  (['>', '>', '*'], .shiftRightStar),
  (['.', '.'], .dotDot), (['=', '>'], .arrow), (['+', '='], .plusEqual), (['-', '='], .minusEqual),
  (['*', '='], .starEqual), (['/', '='], .slashEqual), (['%', '='], .percentEqual),
  (['^', '='], .caretEqual), (['&', '&'], .andAnd), (['|', '|'], .orOr), (['=', '='], .equalEqual),
  (['!', '='], .notEqual), (['<', '='], .lessEqual), (['>', '='], .greaterEqual),
  (['<', '<'], .shiftLeft), (['>', '>'], .shiftRight), (['<', '>'], .diamond),
  (['!'], .exclamation), (['?'], .question), (['#'], .pound), (['$'], .dollar), (['@'], .atSign),
  (['~'], .tilde), (['\''], .quote), (['\x7b'], .openCurly), (['('], .openParen),
  (['['], .openSquare), (['\x7d'], .closeCurly), ([')'], .closeParen), ([']'], .closeSquare),
  ([':'], .colon), ([','], .comma), (['.'], .dot), ([';'], .semicolon), (['+'], .plus),
  (['-'], .minus), (['*'], .star), (['/'], .slash), (['%'], .percent), (['^'], .caret),
  (['&'], .ampersand), (['|'], .bar), (['='], .equal), (['<'], .openAngle), (['>'], .closeAngle)]

/-- The longest mark that a text begins with. -/
def markAt? (cs : List Char) : Option (List Char × TokenKind) :=
  marks.find? fun mark => mark.1.isPrefixOf cs

/-- The kind of a word. The three keywords are known in any case. -/
def wordKind (word : List Char) : TokenKind :=
  let folded := word.map Char.toLower
  if folded = ['f', 'o', 'r'] then .forWord
  else if folded = ['i', 'f'] then .ifWord
  else if folded = ['e', 'l', 's', 'e'] then .elseWord
  else .identifier

/-! ## Dice -/

/-- Whether a byte is a character that passes a test. -/
def isByteOf (test : Char → Bool) (b : UInt8) : Bool := test (Char.ofNat b.toNat)

/-- The number of digits from some byte ahead on, as far as some number of them. -/
def digitsAhead (s : Source) (start : Nat) : Nat → Nat
  | 0 => 0
  | most + 1 =>
    if (s.lookahead start).any (isByteOf Decimal.isDigit) then digitsAhead s (start + 1) most + 1
    else 0

/-- Whether a character begins a dice modifier. -/
def isMarker (c : Char) : Bool := c = 'r' || c = 'h' || c = 'l'

/-- The length of the dice modifier at some byte ahead, zero without one. -/
def modifierAhead (s : Source) (start : Nat) : Nat :=
  let amount := digitsAhead s (start + 1) 3
  if (s.lookahead start).any (isByteOf isMarker) && amount ≠ 0 then 1 + amount else 0

/-- The length of the dice literal that is ahead: a count and the letter `d` before a number of
sides, and up to two modifiers, each number having at most three digits. A literal that runs on into
an identifier is none, so `d20x` is a word. -/
def diceAhead? (s : Source) : Option Nat :=
  let count := digitsAhead s 0 3
  let sides := digitsAhead s (count + 1) 3
  if (s.lookahead count).any (isByteOf (· = 'd')) && sides ≠ 0 then
    let first := modifierAhead s (count + 1 + sides)
    let second := modifierAhead s (count + 1 + sides + first)
    let length := count + 1 + sides + first + second
    if (s.lookahead length).any (isByteOf isWordChar) then none else some length
  else none

/-! ## Tokens -/

/-- A token from the place of one source to that of another further on, where that one goes on. Its
kind may depend on its text. -/
def cut? (s : Source) (kind : List Char → TokenKind) (t : Source) : Option (Token × Source) := do
  let text ← t.section? s.position t.position
  return (⟨kind text, String.ofList text, ⟨s.position, t.position⟩⟩, t)

/-- The character that an escape at the front of a text stands for. A backslash keeps its meaning
only before the delimiter and before another backslash. -/
def escaped? (delimiter : Char) : List Char → Option Char
  | '\\' :: c :: _ => if c = delimiter || c = '\\' then some c else none
  | _ => none

/-- What is left of a text behind a literal's closing delimiter, with what the literal contains. One
that is never closed contains nothing. -/
abbrev Contents := Option (List Char) × Source

/-- Puts characters in front of what a literal contains. -/
def Contents.cons (piece : List Char) (l : Contents) : Contents := (l.1.map (piece ++ ·), l.2)

/-- Reads what a literal contains, a character or an escape at a time, up to its closing delimiter.
The first argument bounds their number. -/
def contents? (delimiter : Char) : Nat → Source → Option Contents
  | 0, s => some (none, s)
  | n + 1, s =>
    match s.rest with
    | [] => some (none, s)
    | c :: _ =>
      if c = delimiter then some (some [], s.consume)
      else
        match escaped? delimiter s.rest with
        | some d => (contents? delimiter n (s.skip 2)).map (.cons [d])
        | none => do
          let piece ← s.consume.section? s.position s.consume.position
          (contents? delimiter n s.consume).map (.cons piece)

/-- The token of a literal whose opening delimiter is next. One that is never closed reaches to the
end. -/
def literal? (kind : TokenKind) (delimiter : Char) (s : Source) : Option (Token × Source) := do
  match ← contents? delimiter s.rest.length s.consume with
  | (some contents, t) => return (⟨kind, String.ofList contents, ⟨s.position, t.position⟩⟩, t)
  | (none, t) => cut? s (fun _ => .unknown) t

/-- The next token. Its first character is `c`, which is no separator. -/
def next? (c : Char) (s : Source) : Option (Token × Source) :=
  if c = '"' then literal? .string c s
  else if c = '\x60' then literal? .stored c s
  else
    match diceAhead? s with
    | some n => cut? s (fun _ => .dice) (s.skip n)
    | none =>
      if isWordStart c then cut? s wordKind (s.skipWhile isWordChar)
      else if Decimal.isDigit c then cut? s (fun _ => .integer) (s.skipWhile Decimal.isDigit)
      else
        match markAt? s.rest with
        | some (mark, kind) =>
          let t := s.skip mark.length
          some (⟨kind, kind.spelling, ⟨s.position, t.position⟩⟩, t)
        | none => cut? s (fun _ => .unknown) s.consume

/-! ## Whole texts -/

/-- The tokens ahead, and the source at its end. The first argument bounds the number of tokens and
separators. Nothing comes of it when cutting breaks down. -/
def scanFrom : Nat → Source → Option (List Token × Source)
  | 0, s => some ([], s)
  | n + 1, s =>
    match s.rest with
    | [] => some ([], s)
    | c :: _ =>
      if isSeparator c then scanFrom n s.consume
      else do
        let (token, t) ← next? c s
        let (tokens, last) ← scanFrom n t
        return (token :: tokens, last)

/-- The tokens of a text, and the source at its end. No token is shorter than a character, so the
length of the text bounds their number. -/
def scan (text : String) : Option (List Token × Source) :=
  scanFrom text.toList.length (.ofString text)

/-- The tokens of a text, closed by one that marks the end. -/
def tokenize (text : String) : Option (List Token) := do
  let (tokens, last) ← scan text
  return tokens ++ [⟨.finish, "", last.here⟩]

end DiceScript.Token
