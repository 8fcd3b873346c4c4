import DiceScript.Name
import DiceScript.Value

/-!
Contexts: the variables that a script sees. A context is a chain of frames. The global frame lives
as long as the context; each running call of a function has a local frame of its own. Names are
looked up by their normal forms, from the innermost frame outwards.
-/

namespace DiceScript

/-- Names with their values, each name once. -/
structure Frame where
  bindings : List (String × Value)

namespace Frame

/-- A frame without names. -/
def empty : Frame := ⟨[]⟩

def get? (f : Frame) (name : String) : Option Value := f.bindings.lookup name

def has (f : Frame) (name : String) : Bool := (f.get? name).isSome

/-- Gives a value to a name in a list of bindings. -/
def bind (name : String) (v : Value) : List (String × Value) → List (String × Value)
  | [] => [(name, v)]
  | (other, w) :: rest => if other = name then (name, v) :: rest else (other, w) :: bind name v rest

/-- Gives a value to a name, in place of the value it had. -/
def insert (f : Frame) (name : String) (v : Value) : Frame := ⟨bind name v f.bindings⟩

def erase (f : Frame) (name : String) : Frame := ⟨f.bindings.filter fun b => b.1 != name⟩

def names (f : Frame) : List String := f.bindings.map Prod.fst

end Frame

/-- A global frame, and local frames with the innermost first. -/
structure Context where
  locals : List Frame
  globals : Frame

namespace Context

/-- A context without variables. -/
def empty : Context := ⟨[], .empty⟩

/-- The frames with the innermost first. -/
def frames (c : Context) : List Frame := c.locals ++ [c.globals]

/-- The number of frames. -/
def depth (c : Context) : Nat := c.locals.length + 1

/-! ## Reading -/

/-- The value of a name in the first frame that has it. -/
def find? (name : String) : List Frame → Option Value
  | [] => none
  | f :: outer =>
    match f.get? name with
    | some v => some v
    | none => find? name outer

/-- The value of a variable. -/
def lookup (c : Context) (name : String) : Option Value :=
  let normal := Name.normalize name
  match find? normal c.locals with
  | some v => some v
  | none => c.globals.get? normal

/-- The value of a global variable. -/
def lookupGlobal (c : Context) (name : String) : Option Value :=
  c.globals.get? (Name.normalize name)

def contains (c : Context) (name : String) : Bool := (c.lookup name).isSome

/-- The names of the global variables, sorted. -/
def globalNames (c : Context) : List String :=
  Sorting.stable (fun a b => decide (a < b)) c.globals.names

/-! ## Writing -/

/-- Changes the innermost frame. -/
def modifyInnermost (c : Context) (change : Frame → Frame) : Context :=
  match c.locals with
  | [] => { c with globals := change c.globals }
  | f :: outer => { c with locals := change f :: outer }

/-- Sets a variable of the innermost frame. -/
def assign (c : Context) (name : String) (v : Value) : Context :=
  c.modifyInnermost (·.insert (Name.normalize name) v)

/-- Sets a global variable. -/
def setGlobal (c : Context) (name : String) (v : Value) : Context :=
  { c with globals := c.globals.insert (Name.normalize name) v }

/-- Sets a name in the first frame that has it, if one does. -/
def overwrite? (name : String) (v : Value) : List Frame → Option (List Frame)
  | [] => none
  | f :: outer =>
    if f.has name then some (f.insert name v :: outer)
    else (overwrite? name v outer).map (f :: ·)

/-- Sets a variable in the innermost frame that has it, or in the innermost frame if none does. -/
def update (c : Context) (name : String) (v : Value) : Context :=
  let normal := Name.normalize name
  match overwrite? normal v c.locals with
  | some locals => { c with locals }
  | none => if c.globals.has normal then c.setGlobal name v else c.assign name v

/-- Sets a global variable from anywhere, if there is one of that name. -/
def elevate (c : Context) (name : String) (v : Value) : Except Fault Context :=
  let normal := Name.normalize name
  if c.globals.has normal then .ok { c with globals := c.globals.insert normal v }
  else .error (.noGlobal normal)

/-- Unsets a variable of the innermost frame, and gives the value it had there. -/
def remove (c : Context) (name : String) : Option Value × Context :=
  let normal := Name.normalize name
  ((c.locals.head?.getD c.globals).get? normal, c.modifyInnermost (·.erase normal))

/-! ## Calls -/

/-- Opens a local frame. -/
def pushScope (c : Context) : Context := { c with locals := .empty :: c.locals }

/-- Closes the innermost local frame and gives what it held. The global frame is never closed. -/
def popScope (c : Context) : Frame × Context :=
  match c.locals with
  | [] => (.empty, c)
  | f :: outer => (f, { c with locals := outer })

end Context

end DiceScript
