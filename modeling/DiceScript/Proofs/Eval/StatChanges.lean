import DiceScript.Proofs.Eval.Atomicity

/-!
Changes of stats. A bonus is put on a stat by `+`, by `+=` and by the member `add`, and taken off by
`-`, by `-=` and by the member `remove`. The three ways make the same stat of a stat, and a negated
bonus turns putting on into taking off and back. Only `+` and `-` are arithmetic, and so only they
fail on a stat whose value does not fit.
-/

namespace DiceScript

variable {σ : Type}

/-- A bonus is put on a stat or taken off. -/
inductive StatChange
  | putOn
  | takeOff
  deriving DecidableEq, Repr

namespace StatChange

open Run Eval

def flip : StatChange → StatChange
  | putOn => takeOff
  | takeOff => putOn

/-- What becomes of a stat. -/
def applyTo (s : Stat) (b : Bonus) : StatChange → Stat
  | putOn => s.add b
  | takeOff => s.remove b

def operator : StatChange → BinaryOp
  | putOn => .add
  | takeOff => .subtract

def assignment : StatChange → AssignOp
  | putOn => .add
  | takeOff => .subtract

def member : StatChange → String
  | putOn => "add"
  | takeOff => "remove"

/-! ## Bonuses and their negations -/

/-- A bonus with a sign: the bonus as it is, or its negation. -/
def signed (b : Bonus) : (negated : Bool) → Value
  | false => .bonus b
  | true => .removal b

/-- What a change with a signed bonus does with the bonus. -/
def under (change : StatChange) : (negated : Bool) → StatChange
  | false => change
  | true => change.flip

theorem flip_under (change : StatChange) (negated : Bool) :
    change.under (!negated) = change.flip.under negated := by
  cases change <;> cases negated <;> rfl

theorem negate_signed (b : Bonus) (negated : Bool) :
    Value.unary .negate (signed b negated) = signed b (!negated) := by
  cases negated <;> rfl

theorem signed_not_error (b : Bonus) (negated : Bool) : (signed b negated).isError = false := by
  cases negated <;> rfl

/-! ## The three ways on values -/

section

variable (change : StatChange) (s : Stat) (b : Bonus) (negated : Bool)

theorem combine_signed :
    Value.combine change.operator (.stat s) (signed b negated) =
      .stat ((change.under negated).applyTo s b) := by
  cases change <;> cases negated <;> rfl

theorem binary_signed :
    Value.binary change.operator (.stat s) (signed b negated) =
      if s.value?.isSome then .stat ((change.under negated).applyTo s b)
      else .fail (.statOverflow s.base) := by
  rw [← combine_signed]
  cases hvalue : s.value? with
  | none =>
    cases change <;> cases negated <;>
      simp [Value.binary, operator, signed, hvalue, Value.isError, Value.overflowOf?]
  | some n =>
    cases change <;> cases negated <;>
      simp [Value.binary, operator, signed, hvalue, Value.isError, Value.overflowOf?]

theorem assigned_signed :
    Value.assigned change.assignment (.stat s) (signed b negated) =
      .stat ((change.under negated).applyTo s b) := by
  cases change <;> cases negated <;> rfl

theorem member_signed :
    (Value.stat s).member change.member [signed b negated] =
      .ok (.changed (.stat ((change.under negated).applyTo s b))) := by
  cases change <;> cases negated <;> rfl

theorem member_mem_mutators : change.member ∈ Value.mutators := by
  cases change <;> decide

end

/-! ## The three ways in scripts -/

/-- What the three ways of a change do with a stat in a variable. The operator gives the new stat
and stores nothing, if the value of the old one fits; the assignment and the member give the new
stat and store it. -/
structure Agree (engine : Engine σ) (levels : Nat) (change : StatChange) (x : String) (e : Expr)
    (m after : Machine σ) (s t : Stat) : Prop where
  operator : evalWithin engine (levels + 1) (.binary change.operator (.var x) e) m =
    some (if s.value?.isSome then .stat t else .fail (.statOverflow s.base), after)
  assignment : evalWithin engine (levels + 1) (.assign x change.assignment e) m =
    some (.stat t, { after with context := after.context.assign x (.stat t) })
  method : ∀ name, Name.fold name = change.member →
    evalWithin engine (levels + 1) (.method (.var x) name [e]) m =
      some (.stat t, { after with context := after.context.assign x (.stat t) })
  stored : (after.context.assign x (.stat t)).lookup x = some (.stat t)

section

variable {engine : Engine σ} {levels : Nat} {x : String} {e : Expr} {m after : Machine σ} {s : Stat}
  {b : Bonus} {negated : Bool}

/-- An expression that has a bonus for a value is not beyond the last level. -/
theorem levels_of_signed (he : evalWithin engine levels e m = some (signed b negated, after)) :
    ∃ n, levels = n + 1 := by
  cases levels with
  | succ n => exact ⟨n, rfl⟩
  | zero => cases negated <;> simp [evalWithin, signed, Value.fail] at he

theorem evalWithin_operator (change : StatChange)
    (hx : evalWithin engine levels (.var x) m = some (.stat s, m))
    (he : evalWithin engine levels e m = some (signed b negated, after)) :
    evalWithin engine (levels + 1) (.binary change.operator (.var x) e) m =
      some (if s.value?.isSome then .stat ((change.under negated).applyTo s b)
        else .fail (.statOverflow s.base), after) := by
  have hop : change.operator ≠ .getBonus := by cases change <;> decide
  rw [evalWithin_succ, step, Eval.binary, if_neg hop]
  simp only [outcome_bind, outcome_eval, outcome_pure, hx, he, Option.bind_some, binary_signed]

theorem evalWithin_assignment (change : StatChange)
    (he : evalWithin engine levels e m = some (signed b negated, after))
    (hx : after.context.lookup x = some (.stat s)) :
    let t := Value.stat ((change.under negated).applyTo s b)
    evalWithin engine (levels + 1) (.assign x change.assignment e) m =
      some (t, { after with context := after.context.assign x t }) := by
  have hop : change.assignment ≠ .elevate := by cases change <;> decide
  have hcurrent : (currentValue x change.assignment).outcome engine.patience
      (evalWithin engine levels) after = some (some (.stat s), after) := by
    simp [currentValue, hx]
  rw [evalWithin_succ, step, Update.outcome_assignVar, he, Option.bind_some]
  simp only [signed_not_error, Bool.false_eq_true, if_false, if_neg hop, hcurrent,
    Option.bind_some, assigned_signed, Update.outcome_store]
  rfl

theorem evalWithin_member (change : StatChange) {name : String}
    (hname : Name.fold name = change.member)
    (hlooked : (Update.looked x).outcome engine.patience (evalWithin engine levels) m =
      some (.stat s, m))
    (he : evalWithin engine levels e m = some (signed b negated, after)) :
    let t := Value.stat ((change.under negated).applyTo s b)
    evalWithin engine (levels + 1) (.method (.var x) name [e]) m =
      some (t, { after with context := after.context.assign x t }) := by
  have hvalues : (valuesOrError [e]).outcome engine.patience (evalWithin engine levels) m =
      some (.ok [signed b negated], after) := by
    simp [valuesOrError, he, signed_not_error]
  have hreduced : (evalWithin engine levels).reduceWithin engine.patience (.stat s) after =
      some (.stat s, after) := by
    simp [Evaluator.reduceWithin]
  rw [evalWithin_succ, Update.outcome_method, hlooked, Option.bind_some]
  simp only [Value.isError, Bool.false_eq_true, if_false, hvalues, Option.bind_some, hname,
    Update.memberOf_mutator change.member_mem_mutators, outcome_andThen, outcome_reduce, hreduced,
    member_signed, Update.outcome_keepTarget]

theorem agree_of_signed (hx : m.context.lookup x = some (.stat s))
    (he : evalWithin engine levels e m = some (signed b negated, after))
    (hx' : after.context.lookup x = some (.stat s)) (change : StatChange) :
    Agree engine levels change x e m after s ((change.under negated).applyTo s b) := by
  obtain ⟨n, rfl⟩ := levels_of_signed he
  have hread : evalWithin engine (n + 1) (.var x) m = some (.stat s, m) := by
    simp [evalWithin_succ, step, readVar, hx]
  have hlooked : (Update.looked x).outcome engine.patience (evalWithin engine (n + 1)) m =
      some (.stat s, m) := by
    simp [Update.looked, heldText?, hx, hread]
  exact {
    operator := evalWithin_operator change hread he
    assignment := evalWithin_assignment change he hx'
    method := fun _ hname => evalWithin_member change hname hlooked he
    stored := Context.lookup_assign _ _ _ }

theorem evalWithin_negated (he : evalWithin engine levels e m = some (signed b negated, after)) :
    evalWithin engine (levels + 1) (.unary .negate e) m = some (signed b (!negated), after) := by
  rw [evalWithin_succ, step]
  simp only [outcome_bind, outcome_eval, outcome_pure, he, Option.bind_some, negate_signed]

end

/-- For a stat in a variable and an expression that has a bonus or a negated bonus for a value and
leaves the stat alone, the three ways of a change agree, and those with the negated expression are
the three ways of the opposite change. The operators are the only ones that look at the value of the
stat, and fail if it does not fit. -/
theorem ways_to_change_a_stat_agree (engine : Engine σ) (levels : Nat) (x : String) (e : Expr)
    (m after : Machine σ) (s : Stat) (b : Bonus) (negated : Bool)
    (hx : m.context.lookup x = some (.stat s))
    (he : evalWithin engine levels e m = some (signed b negated, after))
    (hx' : after.context.lookup x = some (.stat s)) :
    ∀ change : StatChange,
      Agree engine levels change x e m after s ((change.under negated).applyTo s b) ∧
      Agree engine (levels + 1) change x (.unary .negate e) m after s
        ((change.flip.under negated).applyTo s b) := by
  intro change
  refine ⟨agree_of_signed hx he hx' change, ?_⟩
  rw [← flip_under]
  exact agree_of_signed hx (evalWithin_negated he) hx' change

/-- A stat with a bonus on it, and a bonus. -/
def blessed (amount : Integer) : Machine (List Integer) where
  context := ⟨[], ⟨[("S", .stat ⟨10, some [⟨"x", .morale, amount⟩], none⟩),
    ("B", .bonus ⟨"y", .luck, 1⟩)]⟩⟩
  log := .empty
  tray := ⟨[], []⟩

/-- With two on a base of ten, `s += b`, `s.ADD(b)` and `s -= -b` make thirteen. -/
theorem a_blessing_is_put_on_in_three_ways :
    let t : Stat := ⟨10, some [⟨"x", .morale, 2⟩, ⟨"y", .luck, 1⟩], none⟩
    let stored := { blessed 2 with context := (blessed 2).context.assign "s" (.stat t) }
    t.value = 13 ∧
      evalWithin ⟨.standard, .queue, 1⟩ 3 (.binary .add (.var "s") (.var "b")) (blessed 2) =
        some (.stat t, blessed 2) ∧
      evalWithin ⟨.standard, .queue, 1⟩ 3 (.assign "s" .add (.var "b")) (blessed 2) =
        some (.stat t, stored) ∧
      evalWithin ⟨.standard, .queue, 1⟩ 3 (.method (.var "s") "ADD" [.var "b"]) (blessed 2) =
        some (.stat t, stored) ∧
      evalWithin ⟨.standard, .queue, 1⟩ 4
          (.assign "s" .subtract (.unary .negate (.var "b"))) (blessed 2) =
        some (.stat t, stored) := by
  intro t stored
  have hways := ways_to_change_a_stat_agree ⟨.standard, .queue, 1⟩ 2 "s" (.var "b") (blessed 2)
    (blessed 2) ⟨10, some [⟨"x", .morale, 2⟩], none⟩ ⟨"y", .luck, 1⟩ false rfl rfl rfl
  have hputOn := (hways .putOn).1
  have hfits : (Stat.value? ⟨10, some [⟨"x", .morale, 2⟩], none⟩).isSome = true := by decide +kernel
  have hoperator := hputOn.operator
  rw [if_pos hfits] at hoperator
  exact ⟨by decide +kernel, hoperator, hputOn.assignment, hputOn.method _ (by decide),
    (hways .takeOff).2.assignment⟩

/-- On a stat that does not fit, `s + b` is an error, while `s += b` and `s.add(b)` put the bonus
on. -/
theorem a_stat_that_does_not_fit_is_not_added_to :
    let engine : Engine (List Integer) := ⟨.standard, .queue, 1⟩
    let start := blessed Int64.maxValue
    let bonuses (r : Option (Value × Machine (List Integer))) :=
      r.map fun r => match r.1 with
        | .stat t => some t.bonuses
        | _ => none
    let all : Option (List Bonus) := some [⟨"x", .morale, Int64.maxValue⟩, ⟨"y", .luck, 1⟩]
    (evalWithin engine 3 (.binary .add (.var "s") (.var "b")) start).map
        (fun r => (r.1.isError, r.1.text)) =
          some (true, "integer overflow in stat with base 10") ∧
      bonuses (evalWithin engine 3 (.assign "s" .add (.var "b")) start) = some (some all) ∧
      bonuses (evalWithin engine 3 (.method (.var "s") "add" [.var "b"]) start) =
        some (some all) := by
  decide +kernel

end StatChange

end DiceScript
