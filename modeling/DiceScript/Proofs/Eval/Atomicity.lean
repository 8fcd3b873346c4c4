import DiceScript.Proofs.Eval.Updates
import DiceScript.Proofs.Value.Parts

/-!
Updates are all or nothing. Whatever an update evaluates may change the machine as it likes. After
that the update gives an error and the machine stays as it is, or it gives a value and writes one
binding: that of its variable, in the innermost frame or, for `^=`, in the global one.
-/

namespace DiceScript

variable {σ : Type}

namespace Run

/-- Operands have a value each and none of them is an error, or they end with an error. -/
theorem operands_of_valuesOrError {p : Nat} {eval : Evaluator σ} {es : List Expr} {m m' : Machine σ}
    {r : Except Value (List Value)} (h : (valuesOrError es).outcome p eval m = some (r, m')) :
    (∃ vs, r = .ok vs ∧ vs.length = es.length ∧ ∀ v ∈ vs, v.isError = false) ∨
      ∃ error, r = .error error ∧ error.isError = true := by
  induction es generalizing m r with
  | nil =>
    cases h
    exact .inl ⟨[], rfl, rfl, nofun⟩
  | cons e es ih =>
    rw [outcome_valuesOrError_cons] at h
    obtain ⟨⟨v, after⟩, -, h⟩ := Option.bind_eq_some_iff.1 h
    by_cases hv : v.isError = true
    · rw [if_pos hv] at h
      cases h
      exact .inr ⟨v, rfl, hv⟩
    · rw [if_neg hv] at h
      obtain ⟨⟨rest, last⟩, hrest, h⟩ := Option.bind_eq_some_iff.1 h
      cases h
      rcases ih hrest with ⟨vs, rfl, hlength, hvs⟩ | ⟨error, rfl, herror⟩
      · refine .inl ⟨v :: vs, rfl, congrArg Nat.succ hlength, ?_⟩
        rw [List.forall_mem_cons]
        exact ⟨Bool.eq_false_of_not_eq_true hv, hvs⟩
      · exact .inr ⟨error, rfl, herror⟩

end Run

/-! ## Members and slots -/

namespace Value

/-- A member that changes its target gives the changed target, which is no error. -/
theorem changed_of_mutator {v : Value} {name : String} {args : List Value} {r : MemberResult}
    (hname : name ∈ mutators) (h : v.member name args = .ok r) :
    ∃ w, r = .changed w ∧ w.isError = false := by
  have hcases : name = "insert" ∨ name = "append" ∨ name = "remove" ∨ name = "add" := by
    simpa [mutators] using hname
  cases v with
  | array es ks =>
    rcases hcases with rfl | rfl | rfl | rfl
    · obtain ⟨arg, -, h⟩ := withArg_eq_ok h
      cases h
      exact ⟨_, rfl, rfl⟩
    · obtain ⟨arg, -, h⟩ := withArg_eq_ok h
      cases arg <;> cases h
      exact ⟨_, rfl, rfl⟩
    · obtain ⟨arg, -, h⟩ := withArg_eq_ok h
      obtain ⟨items, -, rfl⟩ := map_eq_ok_iff.1 h
      exact ⟨_, rfl, rfl⟩
    · cases h
  | stat s =>
    rcases hcases with rfl | rfl | rfl | rfl
    · cases h
    · cases h
    · obtain ⟨arg, -, h⟩ := withArg_eq_ok h
      cases arg <;> cases h <;> exact ⟨_, rfl, rfl⟩
    · obtain ⟨arg, -, h⟩ := withArg_eq_ok h
      cases arg <;> cases h <;> exact ⟨_, rfl, rfl⟩
  | _ => rcases hcases with rfl | rfl | rfl | rfl <;> cases h

theorem mem_mutators_of_updated {v w : Value} {name : String} {args : List Value}
    {r : MemberResult} (h : v.member name args = .ok r) (hr : r.updated = some w) :
    name ∈ mutators := by
  unfold member at h
  split at h
  case h_1 =>
    unfold arrayMember at h
    split at h
    case h_1 | h_2 | h_3 =>
      cases withArgs_eq_ok h
      cases hr
    case h_4 | h_5 =>
      replace h := withArgs_eq_ok h
      split at h <;> cases h
      cases hr
    case h_6 =>
      obtain ⟨n, -, rfl⟩ := map_eq_ok_iff.1 (withArgs_eq_ok h)
      cases hr
    case h_7 =>
      obtain ⟨needle, -, h⟩ := withArg_eq_ok h
      cases h
      cases hr
    case h_8 | h_9 | h_10 => simp [mutators]
    case h_11 => cases h
  case h_2 =>
    unfold statMember at h
    split at h
    case h_1 | h_4 =>
      cases withArgs_eq_ok h
      cases hr
    case h_2 | h_3 =>
      replace h := withArgs_eq_ok h
      split at h <;> cases h
      cases hr
    case h_5 | h_6 => simp [mutators]
    case h_7 => cases h
  case h_3 =>
    split at h
    · cases withArgs_eq_ok h
      cases hr
    · cases h

/-- A member is listed exactly if it changes some target, given some arguments. -/
theorem mem_mutators_iff (name : String) :
    name ∈ mutators ↔ ∃ v args r w, member v name args = .ok r ∧ r.updated = some w := by
  constructor
  · intro h
    have hcases : name = "insert" ∨ name = "append" ∨ name = "remove" ∨ name = "add" := by
      simpa [mutators] using h
    rcases hcases with rfl | rfl | rfl | rfl
    · exact ⟨.array [] none, [.int 0], _, _, rfl, rfl⟩
    · exact ⟨.array [] none, [.array [] none], _, _, rfl, rfl⟩
    · exact ⟨.stat (.ofBase 0), [.bonus ⟨"", .empty, 0⟩], _, _, rfl, rfl⟩
    · exact ⟨.stat (.ofBase 0), [.bonus ⟨"", .empty, 0⟩], _, _, rfl, rfl⟩
  · rintro ⟨v, args, r, w, h, hr⟩
    exact mem_mutators_of_updated h hr

/-- Assigning through indices gives a value. -/
theorem not_error_of_assignPath {container v : Value} {op : AssignOp} {indices : List Value}
    {r : Value × Value} (hv : v.isError = false)
    (h : assignPath container op v indices = .ok r) : r.2.isError = false := by
  induction indices generalizing container r with
  | nil =>
    obtain ⟨hnot, rfl⟩ := assignPath_nil h
    exact hnot
  | cons index rest ih =>
    obtain ⟨es, ks, rfl, hcases⟩ := assignPath_cons h
    rcases hcases with ⟨key, -, -, -, rfl⟩ | ⟨position, element, whole, updated, -, -, -, hpath, -⟩
    · exact hv
    · exact ih (r := (updated, r.2)) hpath

end Value

namespace Update

open Run Eval

/-! ## What an update writes -/

/-- What an update evaluates before it writes: its target, its operands up to the first error, and
the stored expression that the target holds, unless that is only replaced. -/
def preparation : Update → Run σ Unit
  | assign name op value => do
    let v ← Run.eval value
    if v.isError || op = .set || op = .elevate then return ()
    else
      match ← lookup name with
      | some (.expression text) =>
        let _ ← evalText text
        return ()
      | _ => return ()
  | slot target op value name path h => do
    let _ ← valuesOrError (slot target op value name path h).operands
    return ()
  | method name _ args _ => do
    let target ← looked name
    if target.isError then return ()
    else
      match ← valuesOrError args with
      | .error _ => return ()
      | .ok _ =>
        let _ ← reduce target
        return ()

/-- What an update that gives a value writes, from the machine on which it starts and the one on
which it writes. A variable is set in the innermost frame, or by `^=` in the global frame if that
has it, to the value that the update gives. An assignment through indices sets its variable to the
whole container. -/
def Writes (engine : Engine σ) (levels : Nat) (start prepared : Machine σ) (v : Value)
    (c : Context) : Update → Prop
  | assign name op _ =>
    if op = .elevate then
      prepared.context.globals.has (Name.normalize name) = true ∧
        prepared.context.Rebinds c prepared.context.locals.length (Name.normalize name) v
    else prepared.context.Rebinds c 0 (Name.normalize name) v
  | slot _ op value name path _ =>
    ∃ indices assigned container updated,
      (valuesOrError (path ++ [value])).outcome engine.patience (evalWithin engine levels) start =
        some (.ok (indices ++ [assigned]), prepared) ∧
      prepared.context.lookup name = some container ∧
      Value.assignPath container op assigned indices = .ok (updated, v) ∧
      prepared.context.Rebinds c 0 (Name.normalize name) updated
  | method name _ _ _ => prepared.context.Rebinds c 0 (Name.normalize name) v

/-- How an update ends. -/
inductive AllOrNothing (engine : Engine σ) (levels : Nat) (u : Update) (m : Machine σ) : Prop
  /-- What it evaluates never ends, and neither does the update. -/
  | endless
      (hprepared : u.preparation.outcome engine.patience (evalWithin engine levels) m = none)
      (h : evalWithin engine (levels + 1) u.expr m = none)
  /-- It gives an error, and the machine is as it was prepared. -/
  | failed (prepared : Machine σ) (error : Value)
      (hprepared : u.preparation.outcome engine.patience (evalWithin engine levels) m =
        some ((), prepared))
      (h : evalWithin engine (levels + 1) u.expr m = some (error, prepared))
      (herror : error.isError = true)
  /-- It gives a value, and one binding was written. -/
  | written (prepared : Machine σ) (v : Value) (c : Context)
      (hprepared : u.preparation.outcome engine.patience (evalWithin engine levels) m =
        some ((), prepared))
      (h : evalWithin engine (levels + 1) u.expr m = some (v, { prepared with context := c }))
      (hv : v.isError = false)
      (hwrites : u.Writes engine levels m prepared v c)

section

variable {engine : Engine σ} {levels p : Nat} {eval : Evaluator σ} {m : Machine σ}

theorem outcome_store (name : String) (v : Value) (m : Machine σ) :
    (store name v).outcome p eval m =
      some (v, if v.isError then m else { m with context := m.context.assign name v }) := by
  unfold store
  split <;> rfl

theorem outcome_preparation_assign (p : Nat) (eval : Evaluator σ) (name : String) (op : AssignOp)
    (value : Expr) (m : Machine σ) :
    (preparation (.assign name op value)).outcome p eval m =
      (eval value m).bind fun r =>
        if r.1.isError = true ∨ op = .elevate then some ((), r.2)
        else ((currentValue name op).outcome p eval r.2).map fun s => ((), s.2) := by
  simp only [preparation, outcome_bind, outcome_eval]
  congr 1
  funext r
  by_cases hr : r.1.isError = true
  · simp [hr]
  by_cases hop : op = .elevate
  · simp [hop]
  by_cases hset : op = .set
  · cases hheld : r.2.context.lookup name with
    | none => simp [hr, hset, hheld, currentValue]
    | some held => cases held <;> simp [hr, hset, hheld, currentValue]
  · cases hheld : r.2.context.lookup name with
    | none => simp [hr, hop, hset, hheld, currentValue]
    | some held =>
      cases held with
      | expression text =>
        cases h : (evalText text).outcome p eval r.2 <;>
          simp [hr, hop, hset, hheld, currentValue, h]
      | _ => simp [hr, hop, hset, hheld, currentValue]

theorem outcome_assignVar (p : Nat) (eval : Evaluator σ) (name : String) (op : AssignOp)
    (value : Expr) (m : Machine σ) :
    (assignVar name op value).outcome p eval m =
      (eval value m).bind fun r =>
        if r.1.isError then some r
        else if op = .elevate then (elevate name r.1).outcome p eval r.2
        else ((currentValue name op).outcome p eval r.2).bind fun s =>
          match s.1 with
          | some current => (store name (Value.assigned op current r.1)).outcome p eval s.2
          | none =>
            if op = .set then (store name r.1).outcome p eval s.2
            else some (.fail (.notFound (Name.normalize name)), s.2) := by
  simp only [assignVar, outcome_andThen, outcome_eval]
  congr 1
  funext r
  split
  · rfl
  · split
    · rfl
    · rw [outcome_bind]
      congr 1
      funext s
      cases s.1 with
      | some current => rfl
      | none => by_cases hset : op = .set <;> simp [hset]

/-- Storing a value is all or nothing. -/
theorem allOrNothing_of_store {name : String} {op : AssignOp} {value : Expr} {v : Value}
    {prepared : Machine σ} (hop : op ≠ .elevate)
    (hprepared : (preparation (.assign name op value)).outcome engine.patience
      (evalWithin engine levels) m = some ((), prepared))
    (h : evalWithin engine (levels + 1) (.assign name op value) m =
      (store name v).outcome engine.patience (evalWithin engine levels) prepared) :
    AllOrNothing engine levels (.assign name op value) m := by
  rw [outcome_store] at h
  by_cases hv : v.isError = true
  · rw [if_pos hv] at h
    exact .failed prepared v hprepared h hv
  · rw [if_neg hv] at h
    refine .written prepared v _ hprepared h (Bool.eq_false_of_not_eq_true hv) ?_
    rw [Writes, if_neg hop]
    exact Context.rebinds_assign _ _ _

theorem allOrNothing_assign (name : String) (op : AssignOp) (value : Expr) :
    AllOrNothing engine levels (.assign name op value) m := by
  have hprepared := outcome_preparation_assign engine.patience (evalWithin engine levels) name op
    value m
  have h : evalWithin engine (levels + 1) (.assign name op value) m = _ :=
    outcome_assignVar engine.patience (evalWithin engine levels) name op value m
  cases heval : evalWithin engine levels value m with
  | none =>
    rw [heval] at hprepared h
    exact .endless hprepared h
  | some r =>
    obtain ⟨w, after⟩ := r
    rw [heval, Option.bind_some] at hprepared h
    dsimp only at hprepared h
    by_cases hw : w.isError = true
    · rw [if_pos (.inl hw)] at hprepared
      rw [if_pos hw] at h
      exact .failed after w hprepared h hw
    rw [if_neg hw] at h
    by_cases hop : op = .elevate
    · subst hop
      rw [if_pos (.inr rfl)] at hprepared
      rw [if_pos rfl, outcome_elevate] at h
      cases hc : after.context.elevate name w with
      | error f =>
        rw [hc] at h
        exact .failed after _ hprepared h rfl
      | ok c =>
        rw [hc] at h
        obtain ⟨hhas, rfl⟩ := Context.elevate_eq_ok hc
        refine .written after w _ hprepared h (Bool.eq_false_of_not_eq_true hw) ?_
        exact ⟨hhas, Context.rebinds_setGlobal _ _ _⟩
    · rw [if_neg (by simp [hw, hop])] at hprepared
      rw [if_neg hop] at h
      cases hcurrent : (currentValue name op).outcome engine.patience (evalWithin engine levels)
          after with
      | none =>
        rw [hcurrent] at hprepared h
        exact .endless hprepared h
      | some s =>
        obtain ⟨current, prepared⟩ := s
        rw [hcurrent, Option.map_some] at hprepared
        rw [hcurrent, Option.bind_some] at h
        cases current with
        | some current => exact allOrNothing_of_store hop hprepared h
        | none =>
          by_cases hset : op = .set
          · simp only [hset, if_true] at h
            exact allOrNothing_of_store hop hprepared (hset ▸ h)
          · simp only [hset, if_false] at h
            exact .failed prepared _ hprepared h rfl

theorem allOrNothing_slot (target : Expr) (op : AssignOp) (value : Expr) (name : String)
    (path : List Expr) (hpath : indexPath target = .ok (name, path)) :
    AllOrNothing engine levels (.slot target op value name path hpath) m := by
  have h : evalWithin engine (levels + 1) (.assignIndex target op value) m = _ :=
    outcome_assignment (u := .slot target op value name path hpath) rfl m
  have hprepared : (preparation (.slot target op value name path hpath)).outcome engine.patience
      (evalWithin engine levels) m = _ := outcome_bind _ _ _ _ _
  cases hoperands : (valuesOrError (operands (.slot target op value name path hpath))).outcome
      engine.patience (evalWithin engine levels) m with
  | none =>
    rw [hoperands] at h hprepared
    exact .endless hprepared h
  | some r =>
    obtain ⟨vs, after⟩ := r
    rw [hoperands, Option.bind_some] at h hprepared
    rcases operands_of_valuesOrError hoperands with ⟨vs, rfl, hlength, hvs⟩ | ⟨error, rfl, herror⟩
    · by_cases hop : op = .elevate
      · -- there are no operands
        rw [operands, if_pos hop, List.length_nil, List.length_eq_zero_iff] at hlength
        subst hlength
        exact .failed after _ hprepared h rfl
      · rw [operands, if_neg hop] at hoperands hlength
        rcases List.eq_nil_or_concat vs with rfl | ⟨indices, v, rfl⟩
        · simp at hlength
        have hv : v.isError = false := hvs v (by simp)
        simp only [applyTo, List.concat_eq_append, List.getLast?_concat,
          List.dropLast_concat] at h
        cases hheld : after.context.lookup name with
        | none =>
          simp only [Update.name, hheld] at h
          exact .failed after _ hprepared h rfl
        | some container =>
          simp only [Update.name, hheld] at h
          cases hassigned : Value.assignPath container op v indices with
          | error message =>
            rw [hassigned] at h
            exact .failed after _ hprepared h rfl
          | ok r =>
            rw [hassigned] at h
            refine .written after r.2 _ hprepared h (Value.not_error_of_assignPath hv hassigned) ?_
            rw [List.concat_eq_append] at hoperands
            exact ⟨indices, v, container, r.1, hoperands, hheld, hassigned,
              Context.rebinds_assign _ _ _⟩
    · exact .failed after error hprepared h herror

/-! ## Methods -/

theorem outcome_keepTarget (name : String) (v : Value) (m : Machine σ) :
    (keepTarget (.var name) (.changed v)).outcome p eval m =
      some (v, { m with context := m.context.assign name v }) := rfl

/-- A member that changes its target is looked for in what the target comes to. -/
theorem memberOf_mutator {member : String} (hmember : member ∈ Value.mutators) (target : Expr)
    (v : Value) (vs : List Value) :
    (memberOf target v member vs : Run σ Value) =
      andThen (reduce v) fun w =>
        match w.member member vs with
        | .ok r => keepTarget target r
        | .error f => return .fail f := by
  have htext : member ≠ "text" := by
    rintro rfl
    exact absurd hmember (by decide)
  have heval : member ≠ "eval" := by
    rintro rfl
    exact absurd hmember (by decide)
  unfold memberOf
  split
  · exact absurd rfl htext
  · exact absurd rfl heval
  · rfl

theorem outcome_preparation_method (p : Nat) (eval : Evaluator σ) (name member : String)
    (args : List Expr) (hmember : Name.fold member ∈ Value.mutators) (m : Machine σ) :
    (preparation (.method name member args hmember)).outcome p eval m =
      ((looked name).outcome p eval m).bind fun r =>
        if r.1.isError then some ((), r.2)
        else ((valuesOrError args).outcome p eval r.2).bind fun s =>
          match s.1 with
          | .error _ => some ((), s.2)
          | .ok _ => (eval.reduceWithin p r.1 s.2).map fun t => ((), t.2) := by
  simp only [preparation, outcome_bind]
  congr 1
  funext r
  by_cases hr : r.1.isError = true
  · simp [hr]
  · simp only [hr, outcome_bind, Bool.false_eq_true, if_false]
    congr 1
    funext s
    cases s.1 with
    | error error => rfl
    | ok vs =>
      rw [outcome_bind, outcome_reduce]
      cases eval.reduceWithin p r.1 s.2 <;> rfl

theorem allOrNothing_method (name member : String) (args : List Expr)
    (hmember : Name.fold member ∈ Value.mutators) :
    AllOrNothing engine levels (.method name member args hmember) m := by
  have h : evalWithin engine (levels + 1) (.method (.var name) member args) m = _ :=
    outcome_method name member args m
  have hprepared := outcome_preparation_method engine.patience (evalWithin engine levels) name
    member args hmember m
  cases hlooked : (looked name).outcome engine.patience (evalWithin engine levels) m with
  | none =>
    rw [hlooked] at h hprepared
    exact .endless hprepared h
  | some r =>
    obtain ⟨target, seen⟩ := r
    rw [hlooked, Option.bind_some] at h hprepared
    by_cases htarget : target.isError = true
    · rw [if_pos htarget] at h hprepared
      exact .failed seen target hprepared h htarget
    rw [if_neg htarget] at h hprepared
    cases hargs : (valuesOrError args).outcome engine.patience (evalWithin engine levels) seen with
    | none =>
      rw [hargs] at h hprepared
      exact .endless hprepared h
    | some s =>
      obtain ⟨vs, after⟩ := s
      rw [hargs, Option.bind_some] at h hprepared
      rcases operands_of_valuesOrError hargs with ⟨vs, rfl, -, -⟩ | ⟨error, rfl, herror⟩
      · simp only [memberOf_mutator hmember, outcome_andThen, outcome_reduce] at h
        cases hreduced : (evalWithin engine levels).reduceWithin engine.patience target after with
        | none =>
          simp only [hreduced, Option.map_none] at hprepared
          rw [hreduced] at h
          exact .endless hprepared h
        | some t =>
          obtain ⟨w, prepared⟩ := t
          simp only [hreduced, Option.map_some] at hprepared
          rw [hreduced, Option.bind_some] at h
          by_cases hw : w.isError = true
          · rw [if_pos hw] at h
            exact .failed prepared w hprepared h hw
          rw [if_neg hw] at h
          cases hresult : w.member (Name.fold member) vs with
          | error f =>
            rw [hresult] at h
            exact .failed prepared _ hprepared h rfl
          | ok r =>
            rw [hresult] at h
            obtain ⟨v, rfl, hv⟩ := Value.changed_of_mutator hmember hresult
            exact .written prepared v _ hprepared h hv (Context.rebinds_assign _ _ _)
      · exact .failed after error hprepared h herror

end

/-- Every update is all or nothing. An assignment through something that is no variable evaluates
nothing and gives an error. -/
theorem updates_are_all_or_nothing (engine : Engine σ) (levels : Nat) (m : Machine σ) :
    (∀ u : Update, AllOrNothing engine levels u m) ∧
      ∀ target op value kind, indexPath target = .error kind →
        ∃ message, evalWithin engine (levels + 1) (.assignIndex target op value) m =
          some (.error message, m) := by
  refine ⟨fun u => ?_, fun target op value kind hkind => ?_⟩
  · cases u with
    | assign name op value => exact allOrNothing_assign name op value
    | slot target op value name path h => exact allOrNothing_slot target op value name path h
    | method name member args h => exact allOrNothing_method name member args h
  · rw [evalWithin_succ, step, assignIndex]
    by_cases hop : op = .elevate
    · rw [if_pos hop]
      exact ⟨_, rfl⟩
    · rw [if_neg hop, hkind]
      exact ⟨_, rfl⟩

/-- An array with an array in it. -/
def nested : Machine (List Integer) where
  context := ⟨[], ⟨[("A", .array [.array [.int 1] none, .int 2] none)]⟩⟩
  log := .empty
  tray := ⟨[], []⟩

/-- The assignment `a[0][5] = (b = 7)` goes through the outer array and fails in the inner one. What
its operands wrote stays, and the array is as it was. Through `f()[0]` nothing is assigned, and `b`
is not either. -/
theorem a_slot_out_of_bounds_is_not_assigned :
    let value := Expr.assign "b" .set (.number 7)
    let u := slot (.index (.index (.var "a") (.number 0)) (.number 5)) .set value "a"
      [.number 0, .number 5] rfl
    (∃ prepared error,
      u.preparation.outcome 1 (evalWithin ⟨.standard, .queue, 1⟩ 4) nested = some ((), prepared) ∧
      evalWithin ⟨.standard, .queue, 1⟩ 5 u.expr nested = some (error, prepared) ∧
      error.isError = true ∧ (prepared.context.lookup "b").bind Value.int? = some 7 ∧
      (prepared.context.lookup "a").map Value.text = some "[[1], 2]") ∧
    ∃ message, evalWithin ⟨.standard, .queue, 1⟩ 5
      (.assignIndex (.index (.call "f" []) (.number 0)) .set value) nested =
        some (.error message, nested) := by
  intro value u
  have hall := updates_are_all_or_nothing ⟨.standard, .queue, 1⟩ 4 nested
  have hend : (evalWithin ⟨.standard, .queue, 1⟩ 5 u.expr nested).map (fun r =>
      (r.1.isError, (r.2.context.lookup "b").bind Value.int?,
        (r.2.context.lookup "a").map Value.text)) = some (true, some 7, some "[[1], 2]") := by
    decide +kernel
  refine ⟨?_, hall.2 _ _ _ _ rfl⟩
  rcases hall.1 u with ⟨-, h⟩ | ⟨prepared, error, hprepared, h, herror⟩ |
    ⟨prepared, v, c, -, h, hv, -⟩
  · rw [h] at hend
    cases hend
  · rw [h] at hend
    simp only [Option.map_some, Option.some.injEq, Prod.mk.injEq] at hend
    exact ⟨prepared, error, hprepared, h, herror, hend.2⟩
  · rw [h] at hend
    simp [hv] at hend

end Update

end DiceScript
