import DiceScript.Proofs.Context.Bindings
import DiceScript.Proofs.Eval.Scope
import DiceScript.Proofs.Value.Sameness

/-!
What a call gives back to the variables passed to it. A variable is overwritten by the last of its
parameters whose final value differs from the value passed for it, in the innermost frame that has
the variable, and by nothing else. Parameters are found by their names in the frame of the call. So
where two parameters have the same name, the earlier one has the value of the later one from the
start, and is given back although the body never assigned to it.
-/

namespace DiceScript

variable {σ : Type}

/-! ## The last that counts -/

section

variable {α β : Type} {f : α → Option β}

theorem getLast?_filterMap_cons (x : α) (xs : List α) :
    ((x :: xs).filterMap f).getLast? = ((xs.filterMap f).getLast?).or (f x) := by
  cases hx : f x with
  | none => simp [hx]
  | some b =>
    rw [List.filterMap_cons_some hx, List.getLast?_cons]
    cases (xs.filterMap f).getLast? <;> rfl

theorem getLast?_filterMap_eq_none_iff {xs : List α} :
    (xs.filterMap f).getLast? = none ↔ ∀ (j : Nat) x, xs[j]? = some x → f x = none := by
  rw [List.getLast?_eq_none_iff, List.filterMap_eq_nil_iff]
  constructor
  · intro h j x hx
    exact h x (List.mem_of_getElem? hx)
  · intro h x hx
    obtain ⟨j, hj⟩ := List.getElem?_of_mem hx
    exact h j x hj

/-- The last result of a partial function on a list comes from a place behind which it has none. -/
theorem getLast?_filterMap_eq_some_iff {xs : List α} {b : β} :
    (xs.filterMap f).getLast? = some b ↔
      ∃ (j : Nat) (x : α), xs[j]? = some x ∧ f x = some b ∧
        ∀ (k : Nat) (y : α), j < k → xs[k]? = some y → f y = none := by
  induction xs with
  | nil => simp
  | cons x xs ih =>
    rw [getLast?_filterMap_cons]
    constructor
    · intro h
      rcases Option.or_eq_some_iff.1 h with h | ⟨hnone, h⟩
      · obtain ⟨j, y, hy, hb, hlast⟩ := ih.1 h
        refine ⟨j + 1, y, hy, hb, ?_⟩
        intro k z hk hz
        obtain ⟨k, rfl⟩ : ∃ l, k = l + 1 := ⟨k - 1, by omega⟩
        exact hlast k z (by omega) hz
      · refine ⟨0, x, rfl, h, ?_⟩
        intro k z hk hz
        obtain ⟨k, rfl⟩ : ∃ l, k = l + 1 := ⟨k - 1, by omega⟩
        exact getLast?_filterMap_eq_none_iff.1 hnone k z hz
    · rintro ⟨j, y, hy, hb, hlast⟩
      cases j with
      | zero =>
        cases hy
        have hnone : (xs.filterMap f).getLast? = none :=
          getLast?_filterMap_eq_none_iff.2 fun k z hz => hlast (k + 1) z (by omega) hz
        rw [hnone, Option.none_or, hb]
      | succ j =>
        have hsome := ih.2 ⟨j, y, hy, hb, fun k z hk hz => hlast (k + 1) z (by omega) hz⟩
        rw [hsome, Option.some_or]

end

namespace Eval

/-! ## Parameters -/

/-- The last value passed for a name. -/
def lastPassed (params : List String) (passed : List Value) (name : String) : Option Value :=
  ((params.zip passed).filterMap fun (param, v) =>
    if Name.normalize param = name then some v else none).getLast?

theorem get?_bindParams (params : List String) (passed : List Value) (c : Context)
    (name : String) :
    (bindParams params passed c).innermost.get? name =
      (lastPassed params passed name).or (c.innermost.get? name) := by
  unfold bindParams lastPassed
  generalize params.zip passed = given
  induction given generalizing c with
  | nil => rfl
  | cons first rest ih =>
    obtain ⟨param, v⟩ := first
    rw [List.foldl_cons, ih, getLast?_filterMap_cons, Context.innermost_assign, Frame.get?_insert,
      Option.or_assoc]
    by_cases h : Name.normalize param = name
    · simp [h]
    · simp [h, Ne.symm h]

/-- Where no two parameters have the same name, each has the value that was passed for it. -/
theorem lastPassed_of_nodup {params : List String} {passed : List Value}
    (hnodup : (params.map Name.normalize).Nodup) {j : Nat} {param : String} {v : Value}
    (hparam : params[j]? = some param) (hv : passed[j]? = some v) :
    lastPassed params passed (Name.normalize param) = some v := by
  unfold lastPassed
  rw [getLast?_filterMap_eq_some_iff]
  refine ⟨j, (param, v), List.getElem?_zip_eq_some.2 ⟨hparam, hv⟩, by simp, ?_⟩
  rintro k ⟨other, w⟩ hjk hk
  obtain ⟨hother, -⟩ := List.getElem?_zip_eq_some.1 hk
  have hlength : k < (params.map Name.normalize).length := by
    rw [List.length_map]
    exact (List.getElem?_eq_some_iff.1 hother).1
  have hne := List.nodup_iff_getElem?_ne_getElem?.1 hnodup j k hjk hlength
  rw [List.getElem?_map, List.getElem?_map, hparam, hother] at hne
  exact if_neg fun h => hne (congrArg some h.symm)

/-! ## Copying back -/

/-- What an argument gives back to a variable. -/
def givenBack? (frame : Frame) (x : String) : Expr × String × Value → Option Value
  | (.var name, param, passed) =>
    if Name.normalize name = x then copiedBack? frame param passed else none
  | _ => none

/-- What the arguments of a call give back to a variable in the end. -/
def lastGivenBack (frame : Frame) (given : List (Expr × String × Value)) (x : String) :
    Option Value :=
  (given.filterMap (givenBack? frame x)).getLast?

theorem binding_copyBack (frame : Frame) (given : List (Expr × String × Value)) (c : Context)
    (i : Nat) (x : String) :
    (copyBack frame given c).binding i x =
      match lastGivenBack frame given x with
      | some v => if i = c.home x then some v else c.binding i x
      | none => c.binding i x := by
  induction given generalizing c with
  | nil => rfl
  | cons first rest ih =>
    obtain ⟨e, param, passed⟩ := first
    unfold lastGivenBack at ih ⊢
    rw [getLast?_filterMap_cons]
    cases e with
    | var name =>
      simp only [copyBack, givenBack?]
      cases hback : copiedBack? frame param passed with
      | none => simp [ih]
      | some v =>
        have hupdate := (Context.rebinds_update c name v).binding i x
        rw [ih, Context.home_update, hupdate]
        by_cases hx : Name.normalize name = x
        · subst hx
          cases (rest.filterMap (givenBack? frame (Name.normalize name))).getLast? with
          | none => simp
          | some w => by_cases hi : i = c.home (Name.normalize name) <;> simp [hi]
        · simp [hx, Ne.symm hx]
    | _ => simp [copyBack, givenBack?, ih]

theorem length_copyBack (frame : Frame) (given : List (Expr × String × Value)) (c : Context) :
    (copyBack frame given c).frames.length = c.frames.length :=
  (Context.kept_copyBack frame given c).depth

theorem copyBack_of_none (frame : Frame) (given : List (Expr × String × Value)) (c : Context)
    (h : ∀ x, lastGivenBack frame given x = none) : copyBack frame given c = c := by
  induction given with
  | nil => rfl
  | cons first rest ih =>
    have hboth : ∀ x, lastGivenBack frame rest x = none ∧ givenBack? frame x first = none := by
      intro x
      have hx := h x
      rw [lastGivenBack, getLast?_filterMap_cons, Option.or_eq_none_iff] at hx
      exact hx
    have hrest := ih fun x => (hboth x).1
    obtain ⟨e, param, passed⟩ := first
    cases e with
    | var name =>
      have hback := (hboth (Name.normalize name)).2
      rw [givenBack?, if_pos rfl] at hback
      simp only [copyBack, hback]
      exact hrest
    | _ => exact hrest

/-! ## Calls -/

/-- At a call site a function is called with arguments, on the machine as it is when the function is
known. -/
inductive CallsAt (engine : Engine σ) (levels : Nat) :
    Expr → Machine σ → Function → List Expr → Machine σ → Prop
  | byName {name : String} {f : Function} (args : List Expr) {m : Machine σ}
      (h : m.context.lookup name = some (.function f)) :
      CallsAt engine levels (.call name args) m f args m
  | byValue {callee : Expr} {f : Function} (args : List Expr) {m m' : Machine σ}
      (h : evalWithin engine levels callee m = some (.function f, m')) :
      CallsAt engine levels (.apply callee args) m f args m'

/-- A call whose body comes to an end. -/
structure Called (engine : Engine σ) (levels : Nat) (f : Function) (args : List Expr)
    (m : Machine σ) where
  /-- The values of the arguments. -/
  passed : List Value
  /-- The machine when the arguments have their values. -/
  ready : Machine σ
  /-- The value of the body. -/
  result : Value
  /-- The machine as the body leaves it, with the frame of the call still open. -/
  left : Machine σ
  arity : args.length = f.params.length
  passes : (Run.values args).outcome engine.patience (evalWithin engine levels) m =
    some (passed, ready)
  ends : (evalWithin engine levels).text f.body
    { ready with context := bindParams f.params passed ready.context.pushScope } =
      some (result, left)

namespace Called

variable {engine : Engine σ} {levels : Nat} {f : Function} {args : List Expr} {m : Machine σ}

/-- The machine on which the body starts. -/
def entered (call : Called engine levels f args m) : Machine σ :=
  { call.ready with context := bindParams f.params call.passed call.ready.context.pushScope }

/-- The frame of the call as the body leaves it. -/
def frame (call : Called engine levels f args m) : Frame := call.left.context.popScope.1

/-- The variables of the caller as the body leaves them. -/
def caller (call : Called engine levels f args m) : Context := call.left.context.popScope.2

/-- A bare variable is passed at a position, and the parameter there has a final value that differs
from the value passed. -/
structure GivesBack (call : Called engine levels f args m) (x : String) (j : Nat) (v : Value) :
    Prop where
  bare : ∃ name, args[j]? = some (.var name) ∧ Name.normalize name = x
  final : ∃ param, f.params[j]? = some param ∧ call.frame.get? (Name.normalize param) = some v
  differs : ∃ w, call.passed[j]? = some w ∧ v.same w = false

/-- The variables of the caller after the call. A variable is overwritten from the last position
that gives it back, in the innermost frame that has it; all other bindings are as the body left
them. -/
structure CopiesBack (call : Called engine levels f args m) (c : Context) : Prop where
  depth : c.frames.length = call.caller.frames.length
  overwritten : ∀ x j v, call.GivesBack x j v → (∀ k w, j < k → ¬ call.GivesBack x k w) →
    ∀ i, c.binding i x = if i = call.caller.home x then some v else call.caller.binding i x
  kept : ∀ x, (∀ j v, ¬ call.GivesBack x j v) → ∀ i, c.binding i x = call.caller.binding i x
  untouched : (∀ x j v, ¬ call.GivesBack x j v) → c = call.caller

/-- What the call was given: arguments, parameters and values by position. -/
def given (call : Called engine levels f args m) : List (Expr × String × Value) :=
  args.zip (f.params.zip call.passed)

theorem givenBack?_eq_some_iff {frame : Frame} {x : String} {e : Expr} {param : String}
    {passed v : Value} :
    givenBack? frame x (e, param, passed) = some v ↔
      (∃ name, e = .var name ∧ Name.normalize name = x) ∧
        frame.get? (Name.normalize param) = some v ∧ v.same passed = false := by
  cases e with
  | var name =>
    rw [givenBack?, copiedBack?]
    by_cases hname : Name.normalize name = x
    · simp [hname, Option.filter_eq_some_iff]
    · simp [hname]
  | _ => simp [givenBack?]

theorem givesBack_iff {call : Called engine levels f args m} {x : String} {j : Nat} {v : Value} :
    call.GivesBack x j v ↔
      ∃ entry, call.given[j]? = some entry ∧ givenBack? call.frame x entry = some v := by
  constructor
  · rintro ⟨⟨name, hname, hx⟩, ⟨param, hparam, hv⟩, w, hw, hdiffers⟩
    refine ⟨(.var name, param, w), ?_, ?_⟩
    · exact List.getElem?_zip_eq_some.2 ⟨hname, List.getElem?_zip_eq_some.2 ⟨hparam, hw⟩⟩
    · exact givenBack?_eq_some_iff.2 ⟨⟨name, rfl, hx⟩, hv, hdiffers⟩
  · rintro ⟨⟨e, param, w⟩, hentry, hback⟩
    obtain ⟨he, hrest⟩ := List.getElem?_zip_eq_some.1 hentry
    obtain ⟨hparam, hw⟩ := List.getElem?_zip_eq_some.1 hrest
    obtain ⟨⟨name, rfl, hx⟩, hv, hdiffers⟩ := givenBack?_eq_some_iff.1 hback
    exact ⟨⟨name, he, hx⟩, ⟨param, hparam, hv⟩, w, hw, hdiffers⟩

theorem lastGivenBack_eq_none {call : Called engine levels f args m} {x : String}
    (h : ∀ j v, ¬ call.GivesBack x j v) : lastGivenBack call.frame call.given x = none := by
  refine getLast?_filterMap_eq_none_iff.2 fun j entry hentry => ?_
  refine Option.eq_none_iff_forall_ne_some.2 fun v hv => ?_
  exact h j v (givesBack_iff.2 ⟨entry, hentry, hv⟩)

theorem lastGivenBack_eq_some {call : Called engine levels f args m} {x : String} {j : Nat}
    {v : Value} (h : call.GivesBack x j v) (hlast : ∀ k w, j < k → ¬ call.GivesBack x k w) :
    lastGivenBack call.frame call.given x = some v := by
  obtain ⟨entry, hentry, hv⟩ := givesBack_iff.1 h
  refine getLast?_filterMap_eq_some_iff.2 ⟨j, entry, hentry, hv, fun k other hjk hother => ?_⟩
  refine Option.eq_none_iff_forall_ne_some.2 fun w hw => ?_
  exact hlast k w hjk (givesBack_iff.2 ⟨other, hother, hw⟩)

theorem copiesBack (call : Called engine levels f args m) :
    call.CopiesBack (copyBack call.frame call.given call.caller) where
  depth := length_copyBack _ _ _
  overwritten := by
    intro x j v h hlast i
    rw [binding_copyBack, lastGivenBack_eq_some h hlast]
  kept := by
    intro x h i
    rw [binding_copyBack, lastGivenBack_eq_none h]
  untouched := by
    intro h
    exact copyBack_of_none _ _ _ fun x => lastGivenBack_eq_none (h x)

/-! ## What the body assigned -/

/-- The body assigns to a name of the frame of the call: a change that is made while the body is
evaluated binds it to something else there. -/
def Assigns (call : Called engine levels f args m) (name : String) : Prop :=
  ∃ change ∈ (changesWithin engine levels).text f.body call.entered,
    change.after.bindingOn call.ready.context.frames.length name ≠
      change.before.bindingOn call.ready.context.frames.length name

theorem bindingOn_of_leads {c c' : Context} {changes : List Change} {below : Nat} {name : String}
    (h : Leads c changes c')
    (hkeeps : ∀ change ∈ changes,
      change.after.bindingOn below name = change.before.bindingOn below name) :
    c'.bindingOn below name = c.bindingOn below name := by
  induction h with
  | none c => rfl
  | next _ ih =>
    rw [List.forall_mem_cons] at hkeeps
    exact (ih hkeeps.2).trans hkeeps.1

theorem outer_entered (call : Called engine levels f args m) :
    call.entered.context.outer = call.ready.context.frames := by
  unfold entered
  rw [Context.frames_of_call]

theorem kept_body (call : Called engine levels f args m) :
    call.entered.context.Kept call.left.context :=
  (evalWithin_keepsNames engine levels).text call.ends

/-- The frames of the caller stand below the frame of the call when the body ends as they did when
it started. -/
theorem length_outer_left (call : Called engine levels f args m) :
    call.left.context.outer.length = call.ready.context.frames.length := by
  have h := call.kept_body.outer.length_eq
  rw [outer_entered] at h
  exact h.symm

theorem frame_eq_innermost (call : Called engine levels f args m) :
    call.frame = call.left.context.innermost := by
  have houter : call.left.context.outer ≠ [] := by
    apply List.ne_nil_of_length_pos
    rw [length_outer_left]
    exact call.ready.context.frames_length_pos
  unfold frame Context.popScope Context.innermost
  split
  case h_1 hlocals => exact absurd (Context.outer_of_no_locals hlocals) houter
  case h_2 g gs hlocals => simp [hlocals]

/-- A name to which the body assigns nothing ends as it started. -/
theorem get?_frame_of_not_assigns {call : Called engine levels f args m} {name : String}
    (h : ¬ call.Assigns name) :
    call.frame.get? name = call.entered.context.innermost.get? name := by
  have hleads := (evalWithin_follows engine levels).text call.ends
  have hkeeps : call.left.context.bindingOn call.ready.context.frames.length name =
      call.entered.context.bindingOn call.ready.context.frames.length name := by
    refine bindingOn_of_leads hleads fun change hchange => ?_
    by_contra hne
    exact h ⟨change, hchange, hne⟩
  have hleft := Context.bindingOn_outer call.left.context name
  have hentered := Context.bindingOn_outer call.entered.context name
  rw [length_outer_left] at hleft
  rw [outer_entered] at hentered
  rw [frame_eq_innermost, ← hleft, ← hentered]
  exact hkeeps

/-- Where no two parameters have the same name, a parameter that is given back was assigned to. -/
theorem assigns_of_givesBack {call : Called engine levels f args m} {x : String} {j : Nat}
    {v : Value} (hnodup : (f.params.map Name.normalize).Nodup) (h : call.GivesBack x j v) :
    ∃ param, f.params[j]? = some param ∧ call.Assigns (Name.normalize param) := by
  obtain ⟨-, ⟨param, hparam, hv⟩, w, hw, hdiffers⟩ := h
  refine ⟨param, hparam, ?_⟩
  by_contra hnot
  have hstart : call.entered.context.innermost.get? (Name.normalize param) = some w := by
    unfold entered
    rw [get?_bindParams, lastPassed_of_nodup hnodup hparam hw, Option.some_or]
  rw [get?_frame_of_not_assigns hnot, hstart] at hv
  cases hv
  rw [Value.same_refl] at hdiffers
  cases hdiffers

end Called

/-! ## Parameters of the same name -/

theorem outcome_values_map {ι : Type} {p : Nat} {eval : Evaluator σ} {m : Machine σ}
    {expr : ι → Expr} {value : ι → Value} (h : ∀ k, eval (expr k) m = some (value k, m))
    (ks : List ι) :
    (Run.values (ks.map expr)).outcome p eval m = some (ks.map value, m) := by
  induction ks with
  | nil => rfl
  | cons k ks ih =>
    simp only [List.map_cons, Run.values, Run.outcome_bind, Run.outcome_eval, h, Option.bind_some,
      ih, Run.outcome_pure]

theorem parse_zero : Script.parse "0" = some ⟨.number 0, []⟩ := by cbv

/-- A machine with one variable. -/
def counting (dice : σ) : Machine σ where
  context := ⟨[], ⟨[("X", .int 1)]⟩⟩
  log := .empty
  tray := ⟨dice, []⟩

/-- Arguments of which one is the variable and all others are zero. -/
def oneVariable (count i : Nat) : List Expr :=
  (List.range count).map fun k => if k = i then .var "x" else .number 0

/-- The values of those arguments. -/
def oneAmongZeros (count i : Nat) : List Value :=
  (List.range count).map fun k => if k = i then .int 1 else .int 0

theorem evalWithin_counting (engine : Engine σ) (dice : σ) (e : Expr) (v : Value)
    (h : (e = .var "x" ∧ v = .int 1) ∨ (e = .number 0 ∧ v = .int 0)) :
    evalWithin engine 1 e (counting dice) = some (v, counting dice) := by
  rcases h with ⟨rfl, rfl⟩ | ⟨rfl, rfl⟩
  · have hlookup : (counting dice).context.lookup "x" = some (.int 1) := rfl
    simp [evalWithin_succ, step, readVar, hlookup]
  · rfl

theorem passes_oneVariable (engine : Engine σ) (dice : σ) (count i : Nat) :
    (Run.values (oneVariable count i)).outcome engine.patience (evalWithin engine 1)
      (counting dice) = some (oneAmongZeros count i, counting dice) := by
  refine outcome_values_map (fun k => evalWithin_counting engine dice _ _ ?_) _
  by_cases hk : k = i
  · simp [hk]
  · simp [hk]

/-- The call of a body that does nothing with those arguments. -/
def idleCall (engine : Engine σ) (dice : σ) (params : List String) (i : Nat) :
    Called engine 1 ⟨params, "0"⟩ (oneVariable params.length i) (counting dice) where
  passed := oneAmongZeros params.length i
  ready := counting dice
  result := .int 0
  left :=
    { counting dice with
      context := bindParams params (oneAmongZeros params.length i)
        (counting dice).context.pushScope }
  arity := by simp [oneVariable]
  passes := passes_oneVariable engine dice params.length i
  ends := by
    rw [Evaluator.text, parse_zero]
    rfl

theorem not_assigns_idleCall (engine : Engine σ) (dice : σ) (params : List String) (i : Nat)
    (name : String) : ¬ (idleCall engine dice params i).Assigns name := by
  rintro ⟨change, hchange, -⟩
  rw [Tracer.text, parse_zero] at hchange
  cases hchange

theorem getElem?_oneAmongZeros {count i k : Nat} (h : k < count) :
    (oneAmongZeros count i)[k]? = some (if k = i then .int 1 else .int 0) := by
  simp [oneAmongZeros, h]

/-- The parameter at the position of the variable has the zero of a later parameter of the same
name. -/
theorem lastPassed_oneAmongZeros {params : List String} {i j : Nat} {param other : String}
    (hij : i < j) (hother : params[j]? = some other)
    (hname : Name.normalize other = Name.normalize param) :
    lastPassed params (oneAmongZeros params.length i) (Name.normalize param) = some (.int 0) := by
  have hj : j < params.length := (List.getElem?_eq_some_iff.1 hother).1
  have hlater : (params.zip (oneAmongZeros params.length i))[j]? = some (other, .int 0) := by
    refine List.getElem?_zip_eq_some.2 ⟨hother, ?_⟩
    rw [getElem?_oneAmongZeros hj, if_neg (by omega)]
  cases hlast : lastPassed params (oneAmongZeros params.length i) (Name.normalize param) with
  | none =>
    have hnone := getLast?_filterMap_eq_none_iff.1 hlast j _ hlater
    simp [hname] at hnone
  | some w =>
    obtain ⟨k, ⟨last, u⟩, hk, hw, hbehind⟩ := getLast?_filterMap_eq_some_iff.1 hlast
    obtain ⟨hklast, hku⟩ := List.getElem?_zip_eq_some.1 hk
    have hkj : j ≤ k := by
      by_contra hlt
      have hnone := hbehind j _ (by omega) hlater
      simp [hname] at hnone
    rw [getElem?_oneAmongZeros (List.getElem?_eq_some_iff.1 hklast).1, if_neg (by omega)] at hku
    cases hku
    by_cases hsame : Name.normalize last = Name.normalize param
    · simpa [hsame] using hw.symm
    · simp [hsame] at hw

/-- The call gives the variable a value back although its body assigns to nothing. -/
theorem givesBack_idleCall (engine : Engine σ) (dice : σ) {params : List String} {i j : Nat}
    {param other : String} (hij : i < j) (hparam : params[i]? = some param)
    (hother : params[j]? = some other) (hname : Name.normalize other = Name.normalize param) :
    (idleCall engine dice params i).GivesBack "X" i (.int 0) := by
  have hi : i < params.length := (List.getElem?_eq_some_iff.1 hparam).1
  refine ⟨⟨"x", ?_, rfl⟩, ⟨param, hparam, ?_⟩, .int 1, ?_, rfl⟩
  · simp [oneVariable, hi]
  · rw [Called.get?_frame_of_not_assigns (not_assigns_idleCall engine dice params i _)]
    unfold Called.entered
    rw [get?_bindParams]
    exact congrArg (Option.or · _) (lastPassed_oneAmongZeros hij hother hname)
  · simp [idleCall, oneAmongZeros, hi]

/-! ## Whole calls -/

theorem outcome_callFunction (f : Function) (name : String) (args : List Expr) (p : Nat)
    (eval : Evaluator σ) (m : Machine σ) :
    (callFunction f name args).outcome p eval m =
      if args.length ≠ f.params.length then
        some (.fail (.argumentCount name f.params.length args.length), m)
      else
        ((Run.values args).outcome p eval m).bind fun r =>
          ((invoke f r.1).outcome p eval r.2).bind fun s =>
            some (s.1.1, { s.2 with
              context := copyBack s.1.2 (args.zip (f.params.zip r.1)) s.2.context }) := by
  unfold callFunction
  split
  · rfl
  · simp only [Run.outcome_bind, Run.outcome_modifyContext, Run.outcome_pure, Option.bind_some]

theorem called_of_outcome {engine : Engine σ} {levels : Nat} {f : Function} {name : String}
    {args : List Expr} {m m' : Machine σ} {v : Value} (harity : args.length = f.params.length)
    (h : (callFunction f name args).outcome engine.patience (evalWithin engine levels) m =
      some (v, m')) :
    ∃ call : Called engine levels f args m, v = call.result ∧
      m' = { call.left with context := copyBack call.frame call.given call.caller } := by
  rw [outcome_callFunction, if_neg (not_not.2 harity)] at h
  obtain ⟨⟨passed, ready⟩, hpassed, h⟩ := Option.bind_eq_some_iff.1 h
  obtain ⟨⟨⟨result, frame⟩, returned⟩, hinvoke, h⟩ := Option.bind_eq_some_iff.1 h
  rw [outcome_invoke] at hinvoke
  obtain ⟨⟨body, left⟩, hbody, hinvoke⟩ := Option.bind_eq_some_iff.1 hinvoke
  cases hinvoke
  cases h
  exact ⟨⟨passed, ready, body, left, harity, hpassed, hbody⟩, rfl, rfl⟩

/-- What a call site does is what the call of its function does. -/
theorem evalWithin_callsAt {engine : Engine σ} {levels : Nat} {site : Expr} {m m' : Machine σ}
    {f : Function} {args : List Expr} (h : CallsAt engine levels site m f args m') :
    ∃ name, evalWithin engine (levels + 1) site m =
      (callFunction f name args).outcome engine.patience (evalWithin engine levels) m' := by
  cases h with
  | @byName name f args m h =>
    refine ⟨Name.normalize name, ?_⟩
    simp only [evalWithin_succ, step, call, Run.outcome_bind, Run.outcome_lookup, h,
      Option.bind_some]
  | @byValue callee f args m m' h =>
    refine ⟨"function", ?_⟩
    simp [evalWithin_succ, step, apply, h, Value.isError]

/-- After a call each variable that was passed bare has the value of the last of its parameters that
ended with another value than was passed for it, in the innermost frame that has the variable; where
there is no such parameter, and in all other bindings, nothing is changed by copying back. A
parameter ends with another value only if the body assigns to it, for all functions with given
parameters, exactly if no two of the parameters have the same name. -/
theorem calls_give_back_what_differs (engine : Engine σ) (dice : σ) :
    (∀ (levels : Nat) (site : Expr) (m start m' : Machine σ) (f : Function) (args : List Expr)
      (v : Value), CallsAt engine levels site m f args start →
      evalWithin engine (levels + 1) site m = some (v, m') →
      (args.length ≠ f.params.length ∧ v.isError = true ∧ m' = start) ∨
      ∃ call : Called engine levels f args start, v = call.result ∧
        m'.log = call.left.log ∧ m'.tray = call.left.tray ∧ call.CopiesBack m'.context ∧
        ((f.params.map Name.normalize).Nodup →
          (∀ param ∈ f.params, ¬ call.Assigns (Name.normalize param)) →
          m'.context = call.caller)) ∧
    ∀ params : List String, (params.map Name.normalize).Nodup ↔
      ∀ (levels : Nat) (body : String) (args : List Expr) (m : Machine σ)
        (call : Called engine levels ⟨params, body⟩ args m) (x : String) (j : Nat) (v : Value),
        call.GivesBack x j v →
          ∃ param, params[j]? = some param ∧ call.Assigns (Name.normalize param) := by
  refine ⟨?_, fun params => ⟨?_, ?_⟩⟩
  · intro levels site m start m' f args v hsite h
    obtain ⟨name, hname⟩ := evalWithin_callsAt hsite
    rw [hname] at h
    by_cases harity : args.length = f.params.length
    · obtain ⟨call, hv, rfl⟩ := called_of_outcome harity h
      refine .inr ⟨call, hv, rfl, rfl, call.copiesBack, fun hnodup hnever => ?_⟩
      refine call.copiesBack.untouched fun x j w hgives => ?_
      obtain ⟨param, hparam, hassigns⟩ := call.assigns_of_givesBack hnodup hgives
      exact hnever param (List.mem_of_getElem? hparam) hassigns
    · rw [outcome_callFunction, if_pos harity] at h
      cases h
      exact .inl ⟨harity, rfl, rfl⟩
  · intro hnodup levels body args m call x j v hgives
    exact call.assigns_of_givesBack hnodup hgives
  -- two parameters of one name: the body that does nothing gives the earlier one back
  · intro h
    refine List.nodup_iff_getElem?_ne_getElem?.2 fun i j hij hj heq => ?_
    rw [List.getElem?_map, List.getElem?_map] at heq
    rw [List.length_map] at hj
    have hi : i < params.length := by omega
    rw [List.getElem?_eq_getElem hi, List.getElem?_eq_getElem hj, Option.map_some, Option.map_some,
      Option.some_inj] at heq
    have hgives := givesBack_idleCall engine dice hij (List.getElem?_eq_getElem hi)
      (List.getElem?_eq_getElem hj) heq.symm
    obtain ⟨param, -, hassigns⟩ := h 1 "0" _ _ _ "X" i (.int 0) hgives
    exact not_assigns_idleCall engine dice params i _ hassigns

/-- A function that changes both its parameters, and a variable to pass to it. -/
def raising : Machine (List Integer) where
  context := ⟨[], ⟨[("F", .function ⟨["a", "b"], "a += 10; b += 20"⟩), ("X", .int 1)]⟩⟩
  log := .empty
  tray := ⟨[], []⟩

theorem a_variable_passed_twice_takes_the_later_change :
    ∃ v m', evalWithin ⟨.standard, .queue, 1⟩ 5 (.call "f" [.var "x", .var "x"]) raising =
        some (v, m') ∧
      (m'.context.lookup "x").bind Value.int? = some 21 ∧
      ∃ call : Called ⟨.standard, .queue, 1⟩ 4 ⟨["a", "b"], "a += 10; b += 20"⟩
          [.var "x", .var "x"] raising,
        v = call.result ∧ call.CopiesBack m'.context := by
  have hcall : (evalWithin ⟨.standard, .queue, 1⟩ 5 (.call "f" [.var "x", .var "x"]) raising).map
      (fun r => (r.2.context.lookup "x").bind Value.int?) = some (some 21) := by decide +kernel
  obtain ⟨⟨v, m'⟩, hv, hlookup⟩ := Option.map_eq_some_iff.1 hcall
  refine ⟨v, m', hv, hlookup, ?_⟩
  rcases (calls_give_back_what_differs (σ := List Integer) ⟨.standard, .queue, 1⟩ []).1 4 _ _ _ _ _
    _ _ (.byName _ rfl) hv with ⟨harity, -⟩ | ⟨call, hresult, -, -, hback, -⟩
  · exact absurd rfl harity
  · exact ⟨call, hresult, hback⟩

/-- A function with two parameters of one name, and variables to pass to it. -/
def twinned : Machine (List Integer) where
  context := ⟨[], ⟨[("F", .function ⟨["a", "A"], "0"⟩), ("X", .int 1), ("Y", .int 2)]⟩⟩
  log := .empty
  tray := ⟨[], []⟩

/-- The call of that function. -/
def twinCall : Called ⟨.standard, .queue, 1⟩ 1 ⟨["a", "A"], "0"⟩ [.var "x", .var "y"] twinned where
  passed := [.int 1, .int 2]
  ready := twinned
  result := .int 0
  left := { twinned with
    context := bindParams ["a", "A"] [.int 1, .int 2] twinned.context.pushScope }
  arity := rfl
  passes := rfl
  ends := by
    rw [Evaluator.text, parse_zero]
    rfl

/-- The body assigns to nothing, and still the first variable is overwritten with the value of the
second. -/
theorem parameters_of_one_name_overwrite_a_variable :
    (run ⟨.standard, .queue, 1⟩ "(a, A) => \x7b 0 \x7d" twinned).map (fun r => r.1.text) =
        some (Function.mk ["a", "A"] "0").text ∧
      (∀ name, ¬ twinCall.Assigns name) ∧
      (twinCall.caller.lookup "x").bind Value.int? = some 1 ∧
      (evalWithin ⟨.standard, .queue, 1⟩ 2 (.call "f" [.var "x", .var "y"]) twinned).map
        (fun r => (r.2.context.lookup "x").bind Value.int?) = some (some 2) := by
  refine ⟨by decide +kernel, ?_, by decide +kernel, by decide +kernel⟩
  rintro name ⟨change, hchange, -⟩
  rw [Tracer.text, parse_zero] at hchange
  cases hchange

end Eval

end DiceScript
