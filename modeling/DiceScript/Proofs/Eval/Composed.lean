import DiceScript.Eval
import DiceScript.Proofs.Value.Picks

/-!
What the rules of evaluation are made of. Every rule is put together from a few things that a run
can do: it asks for values, looks at the variables, sets one of the innermost frame, calls a
function, writes a line, and rolls dice. Two things are left to some rules only: an assignment to a
global variable from anywhere, and the copying back of what a call changed.

A property of runs that holds of each of these and of runs one after another holds of every rule.
-/

namespace DiceScript

variable {σ α β : Type}

/-! ## Dice -/

/-- A die with sides has a first face. -/
theorem DiceSpec.one_le_amount {sides : UInt32} (h : sides ≠ 0) : 1 ≤ DiceSpec.amount sides := by
  have hlt := sides.toNat_lt
  have hpos : sides.toNat ≠ 0 := fun hzero => h (UInt32.toNat_inj.1 hzero)
  rw [Int64.le_iff_toInt_le, DiceSpec.amount, Int64.toInt_ofNat_of_lt (by omega), Int64.toInt_one]
  omega

/-- A request has its bounds in order. -/
def Request.Orderly (q : Request) : Prop := q.lower ≤ q.upper

namespace Tray

/-- All requests so far have their bounds in order. -/
def Orderly (tray : Tray σ) : Prop := ∀ q ∈ tray.requests, q.Orderly

/-- What is done with the dice does not depend on the requests made before. Its own requests are put
in front of them, and have their bounds in order. -/
structure Asks (act : StateM (Tray σ) α) : Prop where
  apart (dice : σ) (old : List Request) : act ⟨dice, old⟩ =
    ((act ⟨dice, []⟩).1, ⟨(act ⟨dice, []⟩).2.dice, (act ⟨dice, []⟩).2.requests ++ old⟩)
  orderly (tray : Tray σ) : tray.Orderly → (act tray).2.Orderly

theorem asks_pure (a : α) : Asks (pure a : StateM (Tray σ) α) := ⟨fun _ _ => rfl, fun _ h => h⟩

theorem asks_bind {act : StateM (Tray σ) α} {next : α → StateM (Tray σ) β} (h : Asks act)
    (hnext : ∀ a, Asks (next a)) : Asks (act >>= next) where
  apart dice old := by
    show next (act ⟨dice, old⟩).1 (act ⟨dice, old⟩).2 = _
    rw [h.apart dice old]
    dsimp only
    rw [(hnext _).apart _ ((act ⟨dice, []⟩).2.requests ++ old)]
    have hempty : (act >>= next) ⟨dice, []⟩ =
        next (act ⟨dice, []⟩).1 ⟨(act ⟨dice, []⟩).2.dice, (act ⟨dice, []⟩).2.requests⟩ := rfl
    rw [hempty, (hnext _).apart _ (act ⟨dice, []⟩).2.requests]
    simp only [List.append_assoc]
  orderly tray htray := (hnext _).orderly _ (h.orderly tray htray)

theorem asks_ask (roller : Roller σ) {lower upper : Integer} (h : lower ≤ upper) :
    Asks (roller.ask lower upper) where
  apart _ _ := rfl
  orderly _ htray := List.forall_mem_cons.2 ⟨h, htray⟩

variable (roller : Roller σ)

theorem asks_rollFace {spec : DiceSpec} (h : 1 ≤ DiceSpec.amount spec.sides) :
    Asks (spec.rollFace roller) := by
  refine asks_bind (asks_ask roller h) fun face => ?_
  split
  · split
    · exact asks_ask roller h
    · exact asks_pure _
  · exact asks_pure _

theorem asks_rollFaces {spec : DiceSpec} (h : 1 ≤ DiceSpec.amount spec.sides) (n : Nat) :
    Asks (spec.rollFaces roller n) := by
  induction n with
  | zero => exact asks_pure _
  | succ n ih =>
    refine asks_bind (asks_rollFace roller h) fun face => ?_
    exact asks_bind ih fun faces => asks_pure _

theorem asks_roll? (spec : DiceSpec) : Asks (spec.roll? roller) := by
  unfold DiceSpec.roll?
  split
  · exact asks_pure _
  case isFalse hsides =>
    have hface : 1 ≤ DiceSpec.amount spec.sides := DiceSpec.one_le_amount hsides
    exact asks_bind (asks_rollFaces roller hface _) fun faces => asks_pure _

theorem asks_run (b : Builtin) (numbers : List Integer) : Asks (b.run roller numbers) := by
  unfold Builtin.run
  split
  · split
    · exact asks_pure _
    case isFalse hbounds =>
      exact asks_bind (asks_ask roller (Int64.not_lt.1 hbounds)) fun n => asks_pure _
  · exact asks_pure _

theorem asks_call (b : Builtin) (args : List Value) : Asks (b.call roller args) := by
  unfold Builtin.call
  split
  · exact asks_pure _
  · split
    · exact asks_pure _
    · refine asks_bind (asks_run roller b _) fun result => ?_
      split <;> exact asks_pure _

end Tray

/-! ## Runs -/

namespace Run

/-- A run that is put together from the things that rules do. The two conditions tell which global
variables it may assign to from anywhere, and whether it may copy values back. -/
inductive Composed (mayElevate : String → Prop) (mayCopy : Prop) : {α : Type} → Run σ α → Prop
  | pure {α : Type} (a : α) : Composed mayElevate mayCopy (Pure.pure a)
  | breakdown {α : Type} : Composed mayElevate mayCopy (Run.breakdown : Run σ α)
  | bind {α β : Type} {run : Run σ α} {next : α → Run σ β} :
      Composed mayElevate mayCopy run → (∀ a, Composed mayElevate mayCopy (next a)) →
      Composed mayElevate mayCopy (run >>= next)
  | eval (e : Expr) : Composed mayElevate mayCopy (Run.eval e)
  | reduce (v : Value) : Composed mayElevate mayCopy (Run.reduce v)
  | context : Composed mayElevate mayCopy Run.context
  | assign (name : String) (v : Value) : Composed mayElevate mayCopy (Run.assign name v)
  | elevate {name : String} (h : mayElevate name) (v : Value) :
      Composed mayElevate mayCopy (Eval.elevate name v)
  | invoke (f : Function) (args : List Value) : Composed mayElevate mayCopy (Eval.invoke f args)
  | copyBack (h : mayCopy) (frame : Frame) (passed : List (Expr × String × Value)) :
      Composed mayElevate mayCopy (Run.modifyContext (Eval.copyBack frame passed))
  | writeLine (line : String) : Composed mayElevate mayCopy (Run.writeLine line)
  | withTray {α : Type} {act : StateM (Tray σ) α} (h : Tray.Asks act) :
      Composed mayElevate mayCopy (Run.withTray act)

variable {mayElevate : String → Prop} {mayCopy : Prop}

theorem composed_lookup (name : String) :
    (Run.lookup name : Run σ (Option Value)).Composed mayElevate mayCopy :=
  .bind .context fun _ => .pure _

theorem composed_andThen {run : Run σ Value} {next : Value → Run σ Value}
    (h : run.Composed mayElevate mayCopy) (hnext : ∀ v, (next v).Composed mayElevate mayCopy) :
    (andThen run next).Composed mayElevate mayCopy := by
  refine .bind h fun v => ?_
  split
  · exact .pure v
  · exact hnext v

theorem composed_ofExcept (r : Except Fault Value) :
    (ofExcept r : Run σ Value).Composed mayElevate mayCopy := by
  cases r <;> exact .pure _

theorem composed_values (es : List Expr) :
    (values es : Run σ (List Value)).Composed mayElevate mayCopy := by
  induction es with
  | nil => exact .pure []
  | cons e es ih => exact .bind (.eval e) fun v => .bind ih fun vs => .pure (v :: vs)

theorem composed_valuesOrError (es : List Expr) :
    (valuesOrError es : Run σ (Except Value (List Value))).Composed mayElevate mayCopy := by
  induction es with
  | nil => exact .pure _
  | cons e es ih =>
    refine .bind (.eval e) fun v => ?_
    split
    · exact .pure _
    · refine .bind ih fun r => ?_
      cases r <;> exact .pure _

theorem composed_andThenAll {es : List Expr} {next : List Value → Run σ Value}
    (hnext : ∀ vs, (next vs).Composed mayElevate mayCopy) :
    (andThenAll es next).Composed mayElevate mayCopy := by
  refine .bind (composed_valuesOrError es) fun r => ?_
  cases r with
  | ok vs => exact hnext vs
  | error error => exact .pure error

end Run

namespace Eval

open Run Tray

variable {mayElevate : String → Prop} {mayCopy : Prop} (roller : Roller σ)

/-! ## Variables -/

theorem composed_evalText (text : String) :
    (evalText text : Run σ Value).Composed mayElevate mayCopy := by
  unfold evalText
  split
  · exact .eval _
  · exact .breakdown

theorem composed_readVar (name : String) :
    (readVar name : Run σ Value).Composed mayElevate mayCopy := by
  refine .bind (composed_lookup name) fun found => ?_
  split
  · exact composed_evalText _
  · exact .pure _
  · exact .bind (.writeLine _) fun _ => .pure _

theorem composed_currentValue (name : String) (op : AssignOp) :
    (currentValue name op : Run σ (Option Value)).Composed mayElevate mayCopy := by
  refine .bind (composed_lookup name) fun found => ?_
  split
  · split
    · exact .pure _
    · exact .bind (composed_evalText _) fun _ => .pure _
  · exact .pure _

theorem composed_store (name : String) (v : Value) :
    (store name v : Run σ Value).Composed mayElevate mayCopy := by
  unfold store
  split
  · exact .pure v
  · exact .bind (.assign name v) fun _ => .pure v

theorem composed_assignVar (name : String) {op : AssignOp} (value : Expr)
    (h : op = .elevate → mayElevate name) :
    (assignVar name op value : Run σ Value).Composed mayElevate mayCopy := by
  refine composed_andThen (.eval value) fun v => ?_
  split
  case isTrue hop => exact .elevate (h hop) v
  case isFalse =>
    refine .bind (composed_currentValue name op) fun current => ?_
    split
    · exact composed_store name _
    · split
      · exact composed_store name v
      · exact .pure _

theorem composed_assignSlot (name : String) (op : AssignOp) (indices : List Value) (v : Value) :
    (assignSlot name op indices v : Run σ Value).Composed mayElevate mayCopy := by
  refine .bind (composed_lookup name) fun found => ?_
  split
  · exact .pure _
  · split
    · exact .bind (.assign name _) fun _ => .pure _
    · exact .pure _

theorem composed_assignIndex (target : Expr) (op : AssignOp) (value : Expr) :
    (assignIndex target op value : Run σ Value).Composed mayElevate mayCopy := by
  unfold assignIndex
  split
  · exact .pure _
  · split
    · exact .pure _
    · refine composed_andThenAll fun indices => ?_
      exact composed_andThen (.eval value) fun v => composed_assignSlot _ op indices v

/-! ## Calls -/

theorem composed_callFunction (h : mayCopy) (f : Function) (name : String) (args : List Expr) :
    (callFunction f name args : Run σ Value).Composed mayElevate mayCopy := by
  unfold callFunction
  split
  · exact .pure _
  · refine .bind (composed_values args) fun passed => ?_
    refine .bind (.invoke f passed) fun r => ?_
    exact .bind (.copyBack h r.2 _) fun _ => .pure r.1

theorem composed_call (h : mayCopy) (name : String) (args : List Expr) :
    (call roller name args).Composed mayElevate mayCopy := by
  refine .bind (composed_lookup name) fun found => ?_
  split
  · exact composed_callFunction h _ _ args
  · refine .bind (composed_values args) fun passed => ?_
    split
    · exact .withTray (asks_call roller _ passed)
    · exact .pure _

theorem composed_apply (h : mayCopy) (callee : Expr) (args : List Expr) :
    (apply callee args : Run σ Value).Composed mayElevate mayCopy := by
  refine composed_andThen (.eval callee) fun v => ?_
  split
  · exact composed_callFunction h _ _ args
  · exact .pure _

theorem composed_callOnElement (op : ShiftOp) (f : Function) (element : Value) (position : Nat) :
    (callOnElement op f element position : Run σ Value).Composed mayElevate mayCopy := by
  unfold callOnElement
  split
  · exact .bind (.invoke f _) fun r => .pure r.1
  · exact .pure _

/-! ## Array operators -/

theorem composed_pushed (operand element : Value) (position : Nat) :
    (pushed operand element position : Run σ Value).Composed mayElevate mayCopy := by
  unfold pushed
  split
  · exact composed_callOnElement _ _ element position
  · exact .pure _

theorem composed_pushAll (operand : Value) (position : Nat) (elements : List Value) :
    (pushAll operand position elements : Run σ (Except Value (List Value))).Composed
      mayElevate mayCopy := by
  induction elements generalizing position with
  | nil => exact .pure _
  | cons element rest ih =>
    refine .bind (composed_pushed operand _ position) fun v => ?_
    split
    · exact .pure _
    · refine .bind (ih (position + 1)) fun r => ?_
      cases r <;> exact .pure _

theorem composed_pulled (operand element : Value) (position : Nat) :
    (pulled operand element position : Run σ (Except Value Bool)).Composed mayElevate mayCopy := by
  unfold pulled
  split
  · refine .bind (composed_callOnElement _ _ _ position) fun v => ?_
    split <;> exact .pure _
  · exact .pure _

theorem composed_pullAll (operand : Value) (position : Nat) (elements : List Value) :
    (pullAll operand position elements : Run σ (Except Value (List Value))).Composed
      mayElevate mayCopy := by
  induction elements generalizing position with
  | nil => exact .pure _
  | cons element rest ih =>
    refine .bind (composed_pulled operand element position) fun r => ?_
    cases r with
    | error error => exact .pure _
    | ok keep =>
      refine .bind (ih (position + 1)) fun r => ?_
      cases r <;> exact .pure _

theorem composed_shiftValues (op : ShiftOp) (a b : Value) :
    (shiftValues op a b : Run σ Value).Composed mayElevate mayCopy := by
  unfold shiftValues
  split
  · exact .bind (composed_pushAll b 0 _) fun _ => .pure _
  · exact .bind (composed_pullAll b 0 _) fun _ => .pure _
  · exact .pure _
  · exact .pure _
  · exact .pure _

theorem composed_shift (op : ShiftOp) (left right : Expr) :
    (shift op left right : Run σ Value).Composed mayElevate mayCopy := by
  refine .bind (.eval left) fun a => .bind (.eval right) fun b => ?_
  split
  · exact .pure a
  · split
    · exact .pure b
    · exact composed_shiftValues op a b

/-! ## Parts of values -/

theorem composed_heldText? (e : Expr) :
    (heldText? e : Run σ (Option String)).Composed mayElevate mayCopy := by
  unfold heldText?
  split
  · refine .bind (composed_lookup _) fun found => ?_
    split <;> exact .pure _
  · exact .pure _

theorem composed_defer (operand : Expr) :
    (defer operand : Run σ Value).Composed mayElevate mayCopy := by
  refine .bind (composed_heldText? operand) fun held => ?_
  split
  · exact .pure _
  · exact .bind (.eval operand) fun _ => .pure _

theorem composed_indexByMark (container : Value) (mark : String) :
    (indexByMark roller container mark).Composed mayElevate mayCopy := by
  unfold indexByMark
  split
  · exact .pure _
  case h_2 count hcount =>
    split
    · exact .pure _
    · split
      · split
        · exact .pure _
        case isFalse hne =>
          have hlast : 0 ≤ count - 1 := (Value.last_of_partCount hcount hne).1
          exact .bind (.withTray (asks_ask roller hlast)) fun _ => composed_ofExcept _
      · exact .pure _

theorem composed_index (container position : Expr) :
    (index roller container position).Composed mayElevate mayCopy := by
  refine .bind (.eval container) fun c => .bind (.eval position) fun i => ?_
  split
  · exact .pure c
  · split
    · exact .pure i
    · split
      · exact composed_indexByMark roller c _
      · exact composed_ofExcept _

theorem composed_keepTarget (target : Expr) (r : MemberResult) :
    (keepTarget target r : Run σ Value).Composed mayElevate mayCopy := by
  unfold keepTarget
  split
  · exact .bind (.assign _ _) fun _ => .pure _
  · exact .pure _

theorem composed_memberOf (target : Expr) (v : Value) (name : String) (args : List Value) :
    (memberOf target v name args : Run σ Value).Composed mayElevate mayCopy := by
  unfold memberOf
  split
  · exact composed_ofExcept _
  · split
    · exact composed_evalText _
    · exact .pure _
  · refine composed_andThen (.reduce _) fun w => ?_
    split
    · exact composed_keepTarget target _
    · exact .pure _

theorem composed_member (target : Expr) (name : String) (args : List Expr) :
    (member target name args : Run σ Value).Composed mayElevate mayCopy := by
  refine .bind (composed_heldText? target) fun held => ?_
  refine composed_andThen ?_ fun v => ?_
  · split
    · exact .pure _
    · exact .eval target
  · exact composed_andThenAll fun args => composed_memberOf target v _ args

/-! ## Bonuses -/

theorem composed_withBonusType (type : Expr) {next : BonusType → Run σ Value}
    (h : ∀ t, (next t).Composed mayElevate mayCopy) :
    (withBonusType type next).Composed mayElevate mayCopy := by
  refine composed_andThen (.eval type) fun v => ?_
  split
  · exact h _
  · exact .pure _

theorem composed_withBonusValue (value : Expr) {next : Integer → Run σ Value}
    (h : ∀ n, (next n).Composed mayElevate mayCopy) :
    (withBonusValue value next).Composed mayElevate mayCopy := by
  refine composed_andThen (.eval value) fun v => ?_
  split
  · exact h _
  · exact .pure _

theorem composed_bonus (name : Expr) (type value : Option Expr) :
    (bonus name type value : Run σ Value).Composed mayElevate mayCopy := by
  refine composed_andThen (.eval name) fun nameValue => ?_
  cases type with
  | none =>
    cases value with
    | none => exact .pure _
    | some value => exact composed_withBonusValue value fun _ => .pure _
  | some type =>
    refine composed_withBonusType type fun t => ?_
    cases value with
    | none => exact .pure _
    | some value => exact composed_withBonusValue value fun _ => .pure _

theorem composed_askedStat (e : Expr) :
    (askedStat e : Run σ (Except Value Stat)).Composed mayElevate mayCopy := by
  unfold askedStat
  split
  · refine .bind (composed_lookup _) fun found => ?_
    split <;> exact .pure _
  · refine .bind (.eval _) fun v => ?_
    split <;> exact .pure _

theorem composed_getBonus (left right : Expr) :
    (getBonus left right : Run σ Value).Composed mayElevate mayCopy := by
  refine .bind (composed_askedStat left) fun r => ?_
  cases r with
  | ok s => exact composed_withBonusType right fun _ => .pure _
  | error error => exact .pure error

/-! ## Dice -/

theorem composed_roll (spec : DiceSpec) : (roll roller spec).Composed mayElevate mayCopy := by
  refine .bind (.withTray (asks_roll? roller spec)) fun r => ?_
  split <;> exact .pure _

theorem composed_rollTimes (spec : DiceSpec) (n : Nat) (total : Integer) :
    (rollTimes roller spec n total).Composed mayElevate mayCopy := by
  induction n generalizing total with
  | zero => exact .pure _
  | succ n ih =>
    refine .bind (composed_roll roller spec) fun v => ?_
    split
    · split
      · exact ih _
      · exact .pure _
    · exact .pure _

theorem composed_rollRepeated (spec : DiceSpec) (count : Value) :
    (rollRepeated roller spec count).Composed mayElevate mayCopy := by
  unfold rollRepeated
  split
  · split
    · exact composed_rollTimes roller spec _ _
    · exact .pure _
  · exact .pure _

theorem composed_operands (op : BinaryOp) (left right : Expr) :
    (do
      let a ← Run.eval left
      let b ← Run.eval right
      return Value.binary op a b : Run σ Value).Composed mayElevate mayCopy :=
  .bind (.eval left) fun _ => .bind (.eval right) fun _ => .pure _

theorem composed_multiplied (op : BinaryOp) (dice count : Expr) :
    (multiplied roller op dice count).Composed mayElevate mayCopy := by
  unfold multiplied
  dsimp only
  split
  · split
    · exact composed_andThen (.eval count) fun v => composed_rollRepeated roller _ v
    · exact composed_operands op _ count
  · exact composed_operands op _ count

/-! ## Control -/

theorem composed_choose (branches : Branches) :
    (choose branches : Run σ Value).Composed mayElevate mayCopy := by
  fun_induction (choose branches : Run σ Value) with
  | case1 => exact .pure _
  | case2 body => exact .eval body
  | case3 condition body rest ih =>
    refine composed_andThen (.eval condition) fun v => ?_
    split
    · exact .eval body
    · exact ih

theorem composed_loopOver (name : String) (body : Expr) (items : List Value) (v : Value) :
    (loopOver name body items v : Run σ Value).Composed mayElevate mayCopy := by
  induction items generalizing v with
  | nil => exact .pure v
  | cons item rest ih => exact .bind (.assign name item) fun _ => .bind (.eval body) fun w => ih w

theorem composed_loop (name : String) (iterable body : Expr) :
    (loop name iterable body : Run σ Value).Composed mayElevate mayCopy := by
  refine composed_andThen (.eval iterable) fun v => ?_
  split
  · exact composed_loopOver name body _ _
  · exact .pure _

/-! ## Every kind of expression -/

theorem composed_binary (op : BinaryOp) (left right : Expr) :
    (binary op left right : Run σ Value).Composed mayElevate mayCopy := by
  unfold binary
  split
  · exact composed_getBonus left right
  · exact composed_operands op left right

theorem composed_pair (key value : Expr) :
    (pair key value : Run σ Value).Composed mayElevate mayCopy := by
  unfold pair
  dsimp only
  split
  · exact composed_andThen (.eval value) fun _ => .pure _
  · refine composed_andThen (.eval _) fun k => ?_
    exact composed_andThen (.eval value) fun _ => .pure _

theorem composed_event (argument : Expr) :
    (event argument : Run σ Value).Composed mayElevate mayCopy :=
  .bind (.eval argument) fun v => .bind (.writeLine _) fun _ => .pure v

theorem composed_logError (v : Value) : (logError v : Run σ Unit).Composed mayElevate mayCopy := by
  unfold logError
  split
  · exact .writeLine _
  · exact .pure ()

end Eval

/-- The part of an expression that is on its own level: of a sequence the first statement. -/
def Expr.lead : Expr → Expr
  | .sequence first _ => first.lead
  | .pipe first _ => first.lead
  | e => e

/-- The rule of an expression assigns to a global variable from anywhere. -/
def Expr.Elevates (e : Expr) (name : String) : Prop := ∃ value, e.lead = .assign name .elevate value

/-- The rule of an expression calls a function with the values of expressions. -/
def Expr.Calls (e : Expr) : Prop :=
  (∃ name args, e.lead = .call name args) ∨ ∃ callee args, e.lead = .apply callee args

namespace Eval

open Run

/-- Every rule is put together from what rules do. -/
theorem composed_step (engine : Engine σ) :
    ∀ e, (step engine e).Composed e.Elevates e.Calls
  | .empty | .number _ | .text _ | .symbol _ | .stored _ | .error _ | .function .. => .pure _
  | .var name => composed_readVar name
  | .dice spec => composed_roll engine.roller spec
  | .unary op operand => .bind (.eval operand) fun _ => .pure _
  | .binary op left right => composed_binary op left right
  | .ternary test yes no => by
    refine composed_andThen (.eval test) fun v => ?_
    split
    · exact .eval yes
    · exact .eval no
  | .shift op left right => composed_shift op left right
  | .pair key value => composed_pair key value
  | .multiplied op dice count => composed_multiplied engine.roller op dice count
  | .index container position => composed_index engine.roller container position
  | .property target name => composed_member target name []
  | .method target name args => composed_member target name args
  | .assign name op value => by
    refine composed_assignVar name value fun hop => ?_
    subst hop
    exact ⟨value, rfl⟩
  | .assignIndex target op value => composed_assignIndex target op value
  | .choice branches => composed_choose branches
  | .loop name iterable body => composed_loop name iterable body
  -- the first statement is on the level of the sequence, and its rule is a part of this one
  | .sequence first rest => by
    refine .bind (composed_step engine first) fun v => ?_
    exact .bind (composed_logError v) fun _ => .eval rest
  | .pipe first rest => by
    refine .bind (composed_step engine first) fun v => ?_
    split
    · exact .bind (.writeLine _) fun _ => .eval rest
    · exact .eval rest
  | .call name args => composed_call engine.roller (.inl ⟨name, args, rfl⟩) name args
  | .apply callee args => composed_apply (.inr ⟨callee, args, rfl⟩) callee args
  | .array elements => composed_andThenAll fun _ => .pure _
  | .bonus name type value => composed_bonus name type value
  | .defer operand => composed_defer operand
  | .event argument => composed_event argument

end Eval

end DiceScript
