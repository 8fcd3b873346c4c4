import DiceScript.Text.Bytes
import DiceScript.Text.Decimal

/-!
The text of a script while it is read from front to back: where a reader stands, what it sees ahead,
and the part of the text between two places. Lines count from one, offsets are bytes from the start.
Both are counted in 32 bits, and start over when these are full.
-/

namespace DiceScript

/-- A place in a text. -/
structure Position where
  line : UInt32
  offset : UInt32
  deriving DecidableEq, Repr

namespace Position

/-- The place before the first character. -/
def start : Position := ⟨1, 0⟩

/-- The place after one more character. -/
def next (p : Position) (c : Char) : Position :=
  ⟨if c = '\n' then p.line + 1 else p.line, p.offset + UInt32.ofNat c.utf8Size⟩

/-- The place after some more characters. -/
def advance (p : Position) (cs : List Char) : Position := cs.foldl next p

end Position

/-- The part of a text between two places. -/
structure Span where
  first : Position
  last : Position
  deriving DecidableEq, Repr

/-- A span as text: the line and the offset where it begins. -/
def Span.text (s : Span) : String :=
  Decimal.text s.first.line.toNat ++ ":" ++ Decimal.text s.first.offset.toNat

/-- A text that has been read up to a place. -/
structure Source where
  text : List Char
  rest : List Char
  position : Position
  deriving Repr

namespace Source

/-- A text of which nothing has been read. -/
def ofString (s : String) : Source := ⟨s.toList, s.toList, .start⟩

/-- The byte that is some number of bytes ahead. -/
def lookahead (s : Source) (distance : Nat) : Option UInt8 := Text.byteAt? s.rest distance

/-- The next byte. -/
def next (s : Source) : Option UInt8 := s.lookahead 0

/-- Reads one character. At the end nothing happens. -/
def consume (s : Source) : Source :=
  match s.rest with
  | [] => s
  | c :: rest => { s with rest, position := s.position.next c }

/-- Reads some number of characters. -/
def skip (s : Source) : Nat → Source
  | 0 => s
  | n + 1 => s.consume.skip n

/-- Reads characters as long as they are of a kind. -/
def skipWhile (s : Source) (test : Char → Bool) : Source := s.skip (s.rest.takeWhile test).length

/-- The text between two places, empty when one of them splits a character. Cutting it out breaks
down when the first place is behind the last, or the last behind the end. -/
def section? (s : Source) (first last : Position) : Option (List Char) :=
  if first.offset ≤ last.offset ∧ last.offset.toNat ≤ Text.size s.text then
    some (Text.slice s.text first.offset.toNat last.offset.toNat)
  else none

/-- The empty span where the reader stands. -/
def here (s : Source) : Span := ⟨s.position, s.position⟩

end Source

end DiceScript
