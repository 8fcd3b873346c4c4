import DiceScript.Eval

/-!
Sessions: a host runs scripts one after another, each on the variables and dice that the one before
left.
-/

namespace DiceScript

/-- What is running, as a host names it in its own messages. -/
inductive Caller
  | script
  | function (name : String)
  | stored (name : String)
  deriving DecidableEq, Repr

def Caller.text : Caller → String
  | script => "script"
  | function name => "function " ++ name
  | stored name => "stored expression " ++ name

/-- What came of a script: its value, the lines it logged and the numbers it asked for. -/
structure Output where
  value : Value
  log : List String
  requests : List Request

/-- A number to tell the session by, how it runs scripts, and what it keeps between them. -/
structure Session (σ : Type) where
  id : Nat
  engine : Engine σ
  context : Context
  dice : σ

namespace Session

variable {σ : Type}

/-- Runs a script and writes to a log. Nothing comes of a script that never ends or breaks down. -/
def runLogged (s : Session σ) (log : Log) (text : String) : Option (Output × Session σ) :=
  let start : Machine σ := ⟨s.context, log, ⟨s.dice, []⟩⟩
  (Eval.run s.engine text start).map fun (value, m) =>
    (⟨value, m.log.lines, m.tray.requests.reverse⟩,
      { s with context := m.context, dice := m.tray.dice })

/-- Runs a script. -/
def run (s : Session σ) (text : String) : Option (Output × Session σ) := s.runLogged .empty text

/-- What a session traces of a script that it ran. -/
def trace (s : Session σ) (text : String) (output : Output) : List String :=
  let name := "session " ++ Decimal.text s.id
  [name ++ " running `" ++ text ++ "`",
    name ++ " produced " ++ output.value.text ++ " (" ++ Decimal.text output.log.length
      ++ " log lines)"]

/-! ## Variables -/

/-- Sets a global variable. -/
def setVariable (s : Session σ) (name : String) (v : Value) : Session σ :=
  { s with context := s.context.setGlobal name v }

/-- The value of a global variable. -/
def global? (s : Session σ) (name : String) : Option Value := s.context.lookupGlobal name

/-- Unsets a variable, and gives the value it had. -/
def unset (s : Session σ) (name : String) : Option Value × Session σ :=
  let (v, context) := s.context.remove name
  (v, { s with context })

end Session

end DiceScript
