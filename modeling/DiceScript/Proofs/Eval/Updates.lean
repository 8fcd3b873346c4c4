import DiceScript.Proofs.Context.Bindings
import DiceScript.Proofs.Eval.Scope

/-!
Updates in place: assignments to variables, assignments through indices, and methods that change
their target. An update evaluates its operands, and the stored expression that its variable may
hold, and then writes at most one binding. An assignment looks at its variable when the operands
have their values, and so it keeps what they wrote to it. A method looks at its variable first.
-/

namespace DiceScript

variable {σ : Type}

/-! ## Operands -/

namespace Run

variable (p : Nat) (eval : Evaluator σ) (m : Machine σ)

theorem outcome_andThenAll (es : List Expr) (next : List Value → Run σ Value) :
    (andThenAll es next).outcome p eval m =
      ((valuesOrError es).outcome p eval m).bind fun r =>
        match r.1 with
        | .ok vs => (next vs).outcome p eval r.2
        | .error error => some (error, r.2) := by
  simp only [andThenAll, outcome_bind]
  congr 1
  funext r
  cases r.1 <;> rfl

theorem outcome_valuesOrError_cons (e : Expr) (es : List Expr) :
    (valuesOrError (e :: es)).outcome p eval m =
      (eval e m).bind fun r =>
        if r.1.isError then some (.error r.1, r.2)
        else ((valuesOrError es).outcome p eval r.2).bind fun s =>
          some (s.1.map (r.1 :: ·), s.2) := by
  simp only [valuesOrError, outcome_bind, outcome_eval]
  congr 1
  funext r
  split
  · rfl
  · rw [outcome_bind]
    congr 1
    funext s
    cases s.1 <;> rfl

/-- The last of several operands is evaluated when all others have values. -/
theorem outcome_valuesOrError_concat (es : List Expr) (e : Expr) :
    (valuesOrError (es ++ [e])).outcome p eval m =
      ((valuesOrError es).outcome p eval m).bind fun r =>
        match r.1 with
        | .error error => some (.error error, r.2)
        | .ok vs => (eval e r.2).bind fun s =>
          some (if s.1.isError then .error s.1 else .ok (vs ++ [s.1]), s.2) := by
  induction es generalizing m with
  | nil =>
    rw [List.nil_append, outcome_valuesOrError_cons]
    simp only [valuesOrError, outcome_pure, Option.bind_some]
    congr 1
    funext r
    split <;> rfl
  | cons first es ih =>
    rw [List.cons_append, outcome_valuesOrError_cons, outcome_valuesOrError_cons,
      Option.bind_assoc]
    congr 1
    funext r
    split
    · rfl
    · rw [ih, Option.bind_assoc, Option.bind_assoc]
      congr 1
      funext s
      cases s.1 with
      | error error => rfl
      | ok vs =>
        simp only [Option.bind_assoc, Option.bind_some]
        congr 1
        funext t
        by_cases ht : t.1.isError = true
        · simp [ht, Except.map]
        · simp [ht, Except.map]

end Run

/-! ## Updates -/

/-- The members that change their target. -/
def Value.mutators : List String := ["insert", "append", "remove", "add"]

/-- An expression that changes a variable in place. -/
inductive Update
  /-- An assignment to the variable. -/
  | assign (name : String) (op : AssignOp) (value : Expr)
  /-- An assignment through indices that start from the variable. -/
  | slot (target : Expr) (op : AssignOp) (value : Expr) (name : String) (path : List Expr)
      (h : Eval.indexPath target = .ok (name, path))
  /-- A method of the variable that changes it. -/
  | method (name member : String) (args : List Expr) (h : Name.fold member ∈ Value.mutators)

namespace Update

open Run Eval

def expr : Update → Expr
  | assign name op value => .assign name op value
  | slot target op value _ _ _ => .assignIndex target op value
  | method name member args _ => .method (.var name) member args

/-- The variable that is changed. -/
def name : Update → String
  | assign name _ _ => name
  | slot _ _ _ name _ _ => name
  | method name _ _ _ => name

def isMethod : Update → Bool
  | method .. => true
  | _ => false

/-- The expressions that are evaluated, in order. There is no `^=` through indices, which evaluates
nothing. -/
def operands : Update → List Expr
  | assign _ _ value => [value]
  | slot _ op value _ path _ => if op = .elevate then [] else path ++ [value]
  | method _ _ args _ => args

/-- The machine on which the operands are evaluated. A method looks at its variable before, and logs
an unknown one. -/
def opened (u : Update) (m : Machine σ) : Machine σ :=
  if u.isMethod && (m.context.lookup u.name).isNone then
    { m with log := m.log.writeLine ((Fault.notFound (Name.normalize u.name)).message ++ ".") }
  else m

/-- What a held value counts as in an assignment. A stored expression is evaluated, unless it is
only replaced. -/
def counted (op : AssignOp) : Option Value → Run σ (Option Value)
  | some (.expression text) =>
    if op = .set then return some (.expression text) else return some (← evalText text)
  | held => return held

/-- What an update does when its operands have values, if its variable is taken to hold some
value. -/
def applyTo (u : Update) (held : Option Value) (vs : List Value) : Run σ Value :=
  match u, vs.getLast? with
  | assign name op _, some v =>
    if op = .elevate then elevate name v
    else do
      match ← counted op held with
      | some current => store name (Value.assigned op current v)
      | none =>
        if op = .set then store name v else return .fail (.notFound (Name.normalize name))
  | slot _ op _ name _ _, some v =>
    match held with
    | none => return .fail (.notFound (Name.normalize name))
    | some container =>
      match Value.assignPath container op v vs.dropLast with
      | .ok (updated, assigned) => do
        Run.assign name updated
        return assigned
      | .error message => return .error message
  | method name member _ _, _ =>
    memberOf (.var name) (held.getD (.int 0)) (Name.fold member) vs
  | _, none => return .fail .onlyVariables

/-! ## When the variable is looked at -/

section

variable {p : Nat} {eval : Evaluator σ}

/-- An assignment evaluates its operands and is then applied to what its variable holds. -/
theorem outcome_assignment {engine : Engine σ} {u : Update} (hu : u.isMethod = false)
    (m : Machine σ) :
    (step engine u.expr).outcome p eval m =
      ((valuesOrError u.operands).outcome p eval m).bind fun r =>
        match r.1 with
        | .ok vs => (u.applyTo (r.2.context.lookup u.name) vs).outcome p eval r.2
        | .error error => some (error, r.2) := by
  cases u with
  | assign name op value =>
    rw [operands, ← List.nil_append [value], outcome_valuesOrError_concat]
    simp only [expr, step, assignVar, outcome_andThen, outcome_eval, valuesOrError, outcome_pure,
      Option.bind_some, Option.bind_assoc]
    congr 1
    funext r
    by_cases hr : r.1.isError = true
    · simp [hr]
    · simp only [hr, Bool.false_eq_true, if_false, List.nil_append, applyTo,
        List.getLast?_singleton]
      by_cases hop : op = .elevate
      · rw [if_pos hop, if_pos hop]
      · rw [if_neg hop, if_neg hop]
        rfl
  | slot target op value name path h =>
    simp only [expr, step, assignIndex]
    by_cases hop : op = .elevate
    · simp [hop, operands, valuesOrError, applyTo]
    · simp only [hop, if_false, h, operands, outcome_andThenAll, outcome_valuesOrError_concat,
        Option.bind_assoc]
      congr 1
      funext r
      cases r.1 with
      | error error => rfl
      | ok vs =>
        simp only [outcome_andThen, outcome_eval, Option.bind_assoc]
        congr 1
        funext s
        by_cases hs : s.1.isError = true
        · simp [hs]
        · simp only [hs, Bool.false_eq_true, if_false, Option.bind_some, applyTo,
            List.getLast?_concat, List.dropLast_concat]
          rfl
  | method name member args h => cases hu

/-- A method looks at its variable, and a stored expression is left as it is. -/
def looked (name : String) : Run σ Value := do
  match ← heldText? (.var name) with
  | some text => return .expression text
  | none => Run.eval (.var name)

/-- A method looks at its variable, evaluates its operands, and is then applied to what it saw. -/
theorem outcome_method {engine : Engine σ} (name member : String) (args : List Expr)
    (m : Machine σ) :
    (step engine (.method (.var name) member args)).outcome p eval m =
      ((looked name).outcome p eval m).bind fun r =>
        if r.1.isError then some r
        else ((valuesOrError args).outcome p eval r.2).bind fun s =>
          match s.1 with
          | .ok vs => (memberOf (.var name) r.1 (Name.fold member) vs).outcome p eval s.2
          | .error error => some (error, s.2) := by
  simp only [step, Eval.member, looked, outcome_bind, outcome_andThen, Option.bind_assoc]
  congr 1
  funext held
  cases held.1 with
  | some text => simp [Value.isError, outcome_andThenAll]
  | none => simp [outcome_andThenAll]

theorem outcome_looked (engine : Engine σ) (levels : Nat) {u : Update} (hu : u.isMethod = true)
    (m : Machine σ) :
    (looked u.name).outcome p (evalWithin engine (levels + 1)) m =
      some ((m.context.lookup u.name).getD (.int 0), u.opened m) := by
  simp only [looked, heldText?, outcome_bind, outcome_lookup, Option.bind_some]
  cases h : m.context.lookup u.name with
  | none => simp [opened, h, hu, evalWithin_succ, step, readVar]
  | some v =>
    cases v with
    | expression text => simp [opened, h]
    | _ => simp [opened, h, evalWithin_succ, step, readVar]

end

/-- Operands that have values are not beyond the last level. -/
theorem levels_of_operands {engine : Engine σ} {levels p : Nat} {es : List Expr} {vs : List Value}
    {m m' : Machine σ} (hes : es ≠ [])
    (h : (valuesOrError es).outcome p (evalWithin engine levels) m = some (.ok vs, m')) :
    ∃ n, levels = n + 1 := by
  cases levels with
  | succ n => exact ⟨n, rfl⟩
  | zero =>
    cases es with
    | nil => exact absurd rfl hes
    | cons e es =>
      rw [outcome_valuesOrError_cons] at h
      simp [evalWithin, Value.fail, Value.isError] at h

/-- Once the operands have values, an assignment is applied to what its variable holds then, and a
method to what its variable held before. So an update is applied to the value that the operands
leave, exactly if it is an assignment or a method that does the same to both values. -/
theorem only_methods_miss_what_operands_write (engine : Engine σ) (levels : Nat) (u : Update)
    (m after : Machine σ) (vs : List Value) (hany : u.operands ≠ [])
    (hheld : u.isMethod = true → ∀ message, m.context.lookup u.name ≠ some (.error message))
    (hoperands : (valuesOrError u.operands).outcome engine.patience (evalWithin engine levels)
      (u.opened m) = some (.ok vs, after)) :
    let applied (held : Option Value) :=
      (u.applyTo held vs).outcome engine.patience (evalWithin engine levels) after
    (u.isMethod = true →
      evalWithin engine (levels + 1) u.expr m = applied (m.context.lookup u.name)) ∧
    (evalWithin engine (levels + 1) u.expr m = applied (after.context.lookup u.name) ↔
      (u.isMethod = true →
        applied (m.context.lookup u.name) = applied (after.context.lookup u.name))) := by
  intro applied
  have hmethod : u.isMethod = true →
      evalWithin engine (levels + 1) u.expr m = applied (m.context.lookup u.name) := by
    intro hu
    obtain ⟨n, rfl⟩ := levels_of_operands hany hoperands
    have hlooked := outcome_looked (p := engine.patience) engine n hu m
    have herror : ((m.context.lookup u.name).getD (.int 0)).isError = false := by
      cases hv : m.context.lookup u.name with
      | none => rfl
      | some v =>
        cases v with
        | error message => exact absurd hv (hheld hu message)
        | _ => rfl
    cases u with
    | method name member args h =>
      rw [Update.name] at hlooked herror
      rw [operands] at hoperands
      rw [expr, evalWithin_succ, outcome_method, hlooked, Option.bind_some, herror,
        if_neg Bool.false_ne_true, hoperands]
      rfl
    | _ => cases hu
  refine ⟨hmethod, ?_⟩
  cases hu : u.isMethod with
  | true =>
    rw [hmethod hu]
    simp
  | false =>
    have hopened : u.opened m = m := by simp [opened, hu]
    rw [hopened] at hoperands
    simp only [evalWithin_succ, outcome_assignment hu, hoperands]
    simp [applied]

/-- A number and an array to update. -/
def stocked : Machine (List Integer) where
  context := ⟨[], ⟨[("A", .array [.int 1] none), ("X", .int 1)]⟩⟩
  log := .empty
  tray := ⟨[], []⟩

/-- The assignment `x += (x = 5)` counts from five. The method `a.insert((x = 5))` may look at its
variable early, since its argument leaves that alone. -/
theorem operands_write_before_an_assignment :
    let written := stocked.context.assign "x" (.int 5)
    let number := assign "x" .add (.assign "x" .set (.number 5))
    let array := method "a" "insert" [.assign "x" .set (.number 5)] (by decide)
    (written.lookup "x").bind Value.int? = some 5 ∧
      evalWithin ⟨.standard, .queue, 1⟩ 5 number.expr stocked =
        (number.applyTo (written.lookup "x") [.int 5]).outcome 1
          (evalWithin ⟨.standard, .queue, 1⟩ 4) { stocked with context := written } ∧
      evalWithin ⟨.standard, .queue, 1⟩ 5 array.expr stocked =
        (array.applyTo (written.lookup "a") [.int 5]).outcome 1
          (evalWithin ⟨.standard, .queue, 1⟩ 4) { stocked with context := written } := by
  intro written number array
  have hvalues : (valuesOrError [.assign "x" .set (.number 5)]).outcome 1
      (evalWithin ⟨.standard, .queue, 1⟩ 4) stocked =
        some (.ok [.int 5], { stocked with context := written }) := rfl
  have hheld : stocked.context.lookup "a" = some (.array [.int 1] none) := rfl
  have hkept : written.lookup "a" = stocked.context.lookup "a" := rfl
  refine ⟨by decide +kernel, ?_, ?_⟩
  · have hnumber := only_methods_miss_what_operands_write ⟨.standard, .queue, 1⟩ 4 number stocked
      { stocked with context := written } [.int 5] (List.cons_ne_nil _ _) nofun hvalues
    exact hnumber.2.2 nofun
  · have hopened : array.opened stocked = stocked := by
      simp [opened, array, isMethod, Update.name, hheld]
    have harray := only_methods_miss_what_operands_write ⟨.standard, .queue, 1⟩ 4 array stocked
      { stocked with context := written } [.int 5] (List.cons_ne_nil _ _)
      (by simp [array, Update.name, hheld]) (by rw [hopened]; exact hvalues)
    rw [hkept]
    exact harray.1 rfl

/-- The argument of `a.insert((a = [5]; 2))` makes the array `[5]`. The method puts the two behind
the elements from before, and so that write is lost. -/
theorem a_method_loses_what_its_argument_wrote :
    let u := method "a" "insert"
      [.sequence (.assign "a" .set (.array [.number 5])) (.number 2)] (by decide)
    let held (r : Option (Value × Machine (List Integer))) :=
      r.bind fun r => (r.2.context.lookup "a").map Value.text
    let applied (name : String) :=
      ((valuesOrError u.operands).outcome 1 (evalWithin ⟨.standard, .queue, 1⟩ 6) stocked).bind
        fun r => (u.applyTo (r.2.context.lookup name) [.int 2]).outcome 1
          (evalWithin ⟨.standard, .queue, 1⟩ 6) r.2
    held (applied "a") = some "[5, 2]" ∧
      held (evalWithin ⟨.standard, .queue, 1⟩ 7 u.expr stocked) = some "[1, 2]" ∧
      held (run ⟨.standard, .queue, 1⟩ "a = [1]; a.insert((a = [5]; 2))" stocked) =
        some "[1, 2]" := by
  decide +kernel

end Update

end DiceScript
