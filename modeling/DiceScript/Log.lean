import DiceScript.Text.Bytes
import DiceScript.Text.Decimal

/-!
Logs: where the lines go that a script writes.
-/

namespace DiceScript

/-- A log that is kept in memory: finished lines, and the bytes of a line that is still being
written. -/
structure Journal where
  finished : Array String
  pending : List UInt8

namespace Journal

def empty : Journal := ⟨#[], []⟩

/-- A line that was written as bytes, without the line break at its end. -/
def lineOf (bytes : List UInt8) : String :=
  let cs := Text.decodeLossy bytes
  String.ofList (if cs.getLast? = some '\n' then cs.dropLast else cs)

/-- Finishes the line that is being written, if anything of it was. -/
def finish (j : Journal) : Journal :=
  if j.pending.isEmpty then j else ⟨j.finished.push (lineOf j.pending), []⟩

/-- Writes a whole line, which may hold line breaks. -/
def writeLine (j : Journal) (line : String) : Journal :=
  { j.finish with finished := j.finish.finished.push line }

/-- Begins a new line with the given chunks of bytes. -/
def write (j : Journal) (chunks : List (List UInt8)) : Journal :=
  { j.finish with pending := chunks.flatten }

/-- The lines, with the one that is still being written. -/
def lines (j : Journal) : List String := j.finish.finished.toList

def isEmpty (j : Journal) : Bool := j.finished.isEmpty && j.pending.isEmpty

end Journal

/-- A log that drops every line, or one that keeps them. -/
inductive Log
  | silent
  | kept (journal : Journal)

namespace Log

/-- A log that keeps its lines and has none yet. -/
def empty : Log := .kept .empty

def writeLine : Log → String → Log
  | silent, _ => silent
  | kept j, line => kept (j.writeLine line)

def lines : Log → List String
  | silent => []
  | kept j => j.lines

/-- Whether the log takes what is written to it. -/
def isOpen : Log → Bool
  | silent => false
  | kept _ => true

/-- A line as a log file holds it, with the session and the time it was written. -/
def fileEntry (session : Nat) (time line : String) : String :=
  "SESSION(" ++ Decimal.text session ++ ") at " ++ time ++ " " ++ line ++ "\n"

end Log

end DiceScript
