import DiceScript.Proofs.Context
import DiceScript.Proofs.Value.Discipline
import DiceScript.Session

/-!
What evaluation keeps. If the values that a context holds obey a discipline, then every rule of
evaluation leaves the context obeying and gives a value that obeys, provided that the expressions it
asks for do; and so does the evaluation of every script.
-/

namespace DiceScript

variable {σ α β : Type} {d : Discipline}

/-! ## Contexts that obey -/

namespace Discipline

/-- All values that a frame holds obey. -/
def ObeysFrame (d : Discipline) (f : Frame) : Prop := ∀ v, f.Holds v → d.Obeys v

/-- All values that a context holds obey. -/
def ObeysContext (d : Discipline) (c : Context) : Prop := ∀ v, c.Holds v → d.Obeys v

variable {c : Context} {v : Value}

/-- A context that holds nothing new but a value that obeys. -/
theorem obeysContext_write {c' : Context} (hc : d.ObeysContext c) (hv : d.Obeys v)
    (h : ∀ w, c'.Holds w → w = v ∨ c.Holds w) : d.ObeysContext c' := by
  intro w hw
  rcases h w hw with rfl | hw
  · exact hv
  · exact hc w hw

theorem obeysContext_bindParams (params : List String) (args : List Value)
    (hargs : ∀ v ∈ args, d.Obeys v) (hc : d.ObeysContext c) :
    d.ObeysContext (Eval.bindParams params args c) := by
  unfold Eval.bindParams
  induction params generalizing args c with
  | nil => exact hc
  | cons param params ih =>
    cases args with
    | nil => exact hc
    | cons arg args =>
      obtain ⟨harg, hargs⟩ := List.forall_mem_cons.1 hargs
      exact ih args hargs (obeysContext_write hc harg fun _ => Context.holds_assign)

theorem obeysContext_copyBack {frame : Frame} (hframe : d.ObeysFrame frame)
    (passed : List (Expr × String × Value)) (hc : d.ObeysContext c) :
    d.ObeysContext (Eval.copyBack frame passed c) := by
  fun_induction Eval.copyBack frame passed c with
  | case1 c => exact hc
  | case2 c name param value rest v hv ih =>
    obtain ⟨hget, -⟩ := Option.filter_eq_some_iff.1 hv
    have hobeys : d.Obeys v := hframe v (Frame.holds_of_get? hget)
    exact ih (obeysContext_write hc hobeys fun _ => Context.holds_update)
  | case3 c name param value rest hnone ih => exact ih hc
  | case4 c first rest hvar ih => exact ih hc

end Discipline

namespace Run

open Discipline

/-! ## Runs that keep a discipline -/

/-- A run keeps a discipline: as long as all that it looks at and is given obeys, all that it puts
obeys and its result is good. -/
def Keeps (d : Discipline) (good : α → Prop) : Run σ α → Prop
  | done a => good a
  | breakdown => True
  | look next => ∀ m, d.ObeysContext m.context → (next m).Keeps d good
  | put m next => d.ObeysContext m.context ∧ next.Keeps d good
  | ask _ next => ∀ v, d.Obeys v → (next v).Keeps d good
  | askReduced v next => d.Obeys v ∧ ∀ w, d.Obeys w → (next w).Keeps d good

/-- All values of a list obey. -/
def ObeyAll (d : Discipline) (vs : List Value) : Prop := ∀ v ∈ vs, d.Obeys v

/-- The values may all be parts of others, or the value in their place obeys. -/
def PartsOrError (d : Discipline) : Except Value (List Value) → Prop
  | .ok vs => ∀ v ∈ vs, d.Storable v
  | .error v => d.Obeys v

variable {good : α → Prop} {good' : β → Prop} {v : Value} {name : String}

theorem keeps_pure {a : α} (h : good a) : (pure a : Run σ α).Keeps d good := h

theorem keeps_plain (h : v.isPlain = true) : (pure v : Run σ Value).Keeps d d.Obeys :=
  obeys_of_plain h

theorem keeps_bind {run : Run σ α} {f : α → Run σ β} (h : run.Keeps d good)
    (hf : ∀ a, good a → (f a).Keeps d good') : (run >>= f).Keeps d good' := by
  change (run.bind f).Keeps d good'
  induction run with
  | done a => exact hf a h
  | breakdown => trivial
  | look next ih => exact fun m hm => ih m (h m hm)
  | put m next ih => exact ⟨h.1, ih h.2⟩
  | ask e next ih => exact fun v hv => ih v (h v hv)
  | askReduced v next ih => exact ⟨h.1, fun w hw => ih w (h.2 w hw)⟩

theorem keeps_eval (e : Expr) : (Run.eval e : Run σ Value).Keeps d d.Obeys := fun _ hv => hv

theorem keeps_reduce (h : d.Obeys v) : (Run.reduce v : Run σ Value).Keeps d d.Obeys :=
  ⟨h, fun _ hw => hw⟩

theorem keeps_context : (Run.context : Run σ Context).Keeps d d.ObeysContext := fun _ hm => hm

theorem keeps_modifyContext {change : Context → Context}
    (h : ∀ c, d.ObeysContext c → d.ObeysContext (change c)) :
    (Run.modifyContext change : Run σ Unit).Keeps d fun _ => True :=
  fun m hm => ⟨h m.context hm, trivial⟩

theorem keeps_lookup (name : String) :
    (Run.lookup name : Run σ (Option Value)).Keeps d fun r => ∀ v, r = some v → d.Obeys v :=
  fun _ hm v hv => hm v (Context.holds_of_lookup hv)

theorem keeps_assign (h : d.Obeys v) : (Run.assign name v : Run σ Unit).Keeps d fun _ => True :=
  keeps_modifyContext fun _ hc => obeysContext_write hc h fun _ => Context.holds_assign

theorem keeps_writeLine (line : String) :
    (Run.writeLine line : Run σ Unit).Keeps d fun _ => True :=
  fun _ hm => ⟨hm, trivial⟩

theorem keeps_withTray {act : StateM (Tray σ) α} (h : ∀ tray, good (act tray).1) :
    (Run.withTray act).Keeps d good :=
  fun m hm => ⟨hm, h m.tray⟩

theorem keeps_tray (act : StateM (Tray σ) α) : (Run.withTray act).Keeps d fun _ => True :=
  keeps_withTray fun _ => trivial

theorem keeps_andThen {run : Run σ Value} {next : Value → Run σ Value}
    (h : run.Keeps d d.Obeys)
    (hnext : ∀ v, d.Storable v → (next v).Keeps d d.Obeys) :
    (Run.andThen run next).Keeps d d.Obeys := by
  refine keeps_bind h fun v hv => ?_
  split
  · exact hv
  case isFalse hnot => exact hnext v (storable_of_not_error hv (Bool.eq_false_iff.2 hnot))

theorem keeps_ofExcept {r : Except Fault Value} (h : ∀ v, r = .ok v → d.Obeys v) :
    (Run.ofExcept r : Run σ Value).Keeps d d.Obeys := by
  cases r with
  | ok v => exact h v rfl
  | error f => exact obeys_of_plain rfl

theorem keeps_values (es : List Expr) :
    (Run.values es : Run σ (List Value)).Keeps d (ObeyAll d) := by
  induction es with
  | nil => exact keeps_pure nofun
  | cons e es ih =>
    refine keeps_bind (keeps_eval e) fun v hv => ?_
    refine keeps_bind ih fun vs hvs => ?_
    exact keeps_pure (List.forall_mem_cons.2 ⟨hv, hvs⟩)

theorem keeps_valuesOrError (es : List Expr) :
    (Run.valuesOrError es : Run σ (Except Value (List Value))).Keeps d (PartsOrError d) := by
  induction es with
  | nil => exact keeps_pure nofun
  | cons e es ih =>
    refine keeps_bind (keeps_eval e) fun v hv => ?_
    split
    · exact hv
    case isFalse hnot =>
      have hpart := storable_of_not_error hv (Bool.eq_false_iff.2 hnot)
      refine keeps_bind ih fun r hr => ?_
      cases r with
      | ok vs => exact keeps_pure (List.forall_mem_cons.2 ⟨hpart, hr⟩)
      | error error => exact hr

theorem keeps_andThenAll {es : List Expr} {next : List Value → Run σ Value}
    (hnext : ∀ vs, (∀ v ∈ vs, d.Storable v) → (next vs).Keeps d d.Obeys) :
    (Run.andThenAll es next).Keeps d d.Obeys := by
  refine keeps_bind (keeps_valuesOrError es) fun r hr => ?_
  cases r with
  | ok vs => exact hnext vs hr
  | error error => exact hr

end Run

namespace Eval

open Run Discipline

variable {v w : Value} {name : String}

/-! ## Variables -/

theorem keeps_evalText (text : String) : (evalText text : Run σ Value).Keeps d d.Obeys := by
  unfold evalText
  split
  · exact keeps_eval _
  · trivial

theorem keeps_readVar (name : String) : (readVar name : Run σ Value).Keeps d d.Obeys := by
  refine keeps_bind (keeps_lookup name) fun r hr => ?_
  split
  · exact keeps_evalText _
  · exact keeps_pure (hr _ rfl)
  · exact keeps_bind (keeps_writeLine _) fun _ _ => keeps_plain rfl

theorem keeps_currentValue (name : String) (op : AssignOp) :
    (currentValue name op : Run σ (Option Value)).Keeps d fun r =>
      ∀ v, r = some v → d.Obeys v := by
  refine keeps_bind (keeps_lookup name) fun r hr => ?_
  split
  · split
    · exact keeps_pure hr
    · refine keeps_bind (keeps_evalText _) fun v hv => keeps_pure ?_
      rintro w ⟨⟩
      exact hv
  · exact keeps_pure hr

theorem keeps_store (hv : d.Obeys v) : (store name v : Run σ Value).Keeps d d.Obeys := by
  unfold store
  split
  · exact keeps_pure hv
  · exact keeps_bind (keeps_assign hv) fun _ _ => keeps_pure hv

theorem keeps_elevate (hv : d.Obeys v) : (elevate name v : Run σ Value).Keeps d d.Obeys := by
  refine keeps_bind keeps_context fun c hc => ?_
  split
  case h_1 c' hc' =>
    have hobeys : d.ObeysContext c' := obeysContext_write hc hv fun _ => Context.holds_elevate hc'
    exact keeps_bind (keeps_modifyContext fun _ _ => hobeys) fun _ _ => keeps_pure hv
  case h_2 => exact keeps_plain rfl

theorem keeps_assignVar (name : String) (op : AssignOp) (value : Expr) :
    (assignVar name op value : Run σ Value).Keeps d d.Obeys := by
  refine keeps_andThen (keeps_eval value) fun v hv => ?_
  split
  · exact keeps_elevate hv.1
  · refine keeps_bind (keeps_currentValue name op) fun r hr => ?_
    split
    · exact keeps_store (obeys_assigned op (hr _ rfl) hv.1)
    · split
      · exact keeps_store hv.1
      · exact keeps_plain rfl

theorem keeps_assignSlot (op : AssignOp) (indices : List Value) (hv : d.Storable v) :
    (assignSlot name op indices v : Run σ Value).Keeps d d.Obeys := by
  refine keeps_bind (keeps_lookup name) fun r hr => ?_
  split
  · exact keeps_plain rfl
  · split
    case h_1 updated assigned hpath =>
      obtain ⟨hupdated, hassigned⟩ := storable_assignPath op hv indices _ (hr _ rfl) _ hpath
      exact keeps_bind (keeps_assign hupdated.1) fun _ _ => keeps_pure hassigned
    case h_2 => exact keeps_plain rfl

theorem keeps_assignIndex (target : Expr) (op : AssignOp) (value : Expr) :
    (assignIndex target op value : Run σ Value).Keeps d d.Obeys := by
  unfold assignIndex
  split
  · exact keeps_plain rfl
  · split
    · exact keeps_plain rfl
    · refine keeps_andThenAll fun indices _ => ?_
      exact keeps_andThen (keeps_eval value) fun v hv => keeps_assignSlot op indices hv

/-! ## Calls -/

theorem keeps_invoke (f : Function) {args : List Value} (hargs : ObeyAll d args) :
    (invoke f args : Run σ (Value × Frame)).Keeps d fun r => d.Obeys r.1 ∧ d.ObeysFrame r.2 := by
  refine keeps_bind (keeps_modifyContext fun c hc => ?_) fun _ _ => ?_
  -- the new frame holds nothing but the arguments
  · exact obeysContext_bindParams _ _ hargs fun w hw => hc w (Context.holds_pushScope hw)
  · refine keeps_bind (keeps_evalText f.body) fun result hresult => ?_
    refine keeps_bind keeps_context fun c hc => ?_
    have hframe : d.ObeysFrame c.popScope.1 := fun w hw => hc w (Context.holds_popScope (.inl hw))
    have hcontext : d.ObeysContext c.popScope.2 :=
      fun w hw => hc w (Context.holds_popScope (.inr hw))
    refine keeps_bind (keeps_modifyContext fun _ _ => hcontext) fun _ _ => ?_
    exact keeps_pure ⟨hresult, hframe⟩

theorem keeps_callFunction (f : Function) (name : String) (args : List Expr) :
    (callFunction f name args : Run σ Value).Keeps d d.Obeys := by
  unfold callFunction
  split
  · exact keeps_plain rfl
  · refine keeps_bind (keeps_values args) fun passed hpassed => ?_
    refine keeps_bind (keeps_invoke f hpassed) fun r hr => ?_
    -- what is copied back comes from the frame of the call
    refine keeps_bind (keeps_modifyContext fun c hc => obeysContext_copyBack hr.2 _ hc)
      fun _ _ => ?_
    exact keeps_pure hr.1

theorem isPlain_builtin (roller : Roller σ) (b : Builtin) (args : List Value) (tray : Tray σ) :
    (b.call roller args tray).1.isPlain = true := by
  unfold Builtin.call
  cases b.arityFault? args.length with
  | some f => rfl
  | none =>
    cases args.mapM b.number with
    | error message => rfl
    | ok numbers =>
      -- whatever the dice show, the result is a number or a fault
      simp only [bind, StateT.bind]
      obtain ⟨result, after⟩ := b.run roller numbers tray
      cases result <;> rfl

theorem keeps_call (roller : Roller σ) (name : String) (args : List Expr) :
    (call roller name args).Keeps d d.Obeys := by
  refine keeps_bind (keeps_lookup name) fun r hr => ?_
  split
  · exact keeps_callFunction _ _ args
  · refine keeps_bind (keeps_values args) fun passed hpassed => ?_
    split
    · exact keeps_withTray fun tray => obeys_of_plain (isPlain_builtin roller _ passed tray)
    · exact keeps_plain rfl

theorem keeps_apply (callee : Expr) (args : List Expr) :
    (apply callee args : Run σ Value).Keeps d d.Obeys := by
  refine keeps_andThen (keeps_eval callee) fun v hv => ?_
  split
  · exact keeps_callFunction _ _ args
  · exact keeps_plain rfl

theorem obeyAll_elementArgs {op : ShiftOp} {f : Function} {position : Nat} {args : List Value}
    (hv : d.Obeys v) (h : elementArgs op f v position = .ok args) : ObeyAll d args := by
  unfold elementArgs at h
  split at h
  case h_1 =>
    cases h
    exact nofun
  case h_2 =>
    cases h
    exact List.forall_mem_singleton.2 hv
  case h_3 =>
    cases h
    exact List.forall_mem_cons.2 ⟨hv, List.forall_mem_singleton.2 (obeys_of_plain rfl)⟩
  case h_4 => cases h

theorem keeps_callOnElement (op : ShiftOp) (f : Function) (position : Nat) (hv : d.Obeys v) :
    (callOnElement op f v position : Run σ Value).Keeps d d.Obeys := by
  unfold callOnElement
  split
  case h_1 args hargs =>
    exact keeps_bind (keeps_invoke f (obeyAll_elementArgs hv hargs)) fun r hr => keeps_pure hr.1
  case h_2 => exact keeps_plain rfl

/-! ## Array operators -/

theorem keeps_pushed (operand : Value) (position : Nat) (hoperand : d.Obeys operand)
    (hv : d.Obeys v) : (pushed operand v position : Run σ Value).Keeps d d.Obeys := by
  unfold pushed
  split
  · exact keeps_callOnElement _ _ position hv
  · exact keeps_pure (obeys_binary _ hv hoperand)

theorem keeps_pushAll {operand : Value} (hoperand : d.Obeys operand) (position : Nat)
    (elements : List Value) (helements : ∀ e ∈ elements, d.Storable e) :
    (pushAll operand position elements : Run σ (Except Value (List Value))).Keeps d
      (PartsOrError d) := by
  induction elements generalizing position with
  | nil => exact keeps_pure nofun
  | cons element rest ih =>
    obtain ⟨helement, hrest⟩ := List.forall_mem_cons.1 helements
    obtain ⟨hkey, hinner⟩ := storable_splitPair helement
    refine keeps_bind (keeps_pushed operand position hoperand hinner.1) fun v hv => ?_
    split
    · exact keeps_pure hv
    case isFalse hnot =>
      -- the new element is no error, so it may stand where the old one did, behind the same key
      have hpart := storable_of_not_error hv (Bool.eq_false_iff.2 hnot)
      refine keeps_bind (ih (position + 1) hrest) fun r hr => ?_
      cases r with
      | ok vs => exact keeps_pure (List.forall_mem_cons.2 ⟨storable_joinPair hkey hpart, hr⟩)
      | error error => exact keeps_pure hr

/-- An error in place of an answer obeys. -/
def ErrorObeys (d : Discipline) (r : Except Value α) : Prop := ∀ v, r = .error v → d.Obeys v

theorem keeps_pulled (operand : Value) (position : Nat) (hv : d.Storable v) :
    (pulled operand v position : Run σ (Except Value Bool)).Keeps d (ErrorObeys d) := by
  unfold pulled
  split
  · refine keeps_bind (keeps_callOnElement _ _ position (storable_unwrapPair hv).1) fun w hw => ?_
    split
    · refine keeps_pure ?_
      rintro u ⟨⟩
      exact hw
    · exact keeps_pure nofun
  · exact keeps_pure nofun

theorem keeps_pullAll (operand : Value) (position : Nat) (elements : List Value)
    (helements : ∀ e ∈ elements, d.Storable e) :
    (pullAll operand position elements : Run σ (Except Value (List Value))).Keeps d
      (PartsOrError d) := by
  induction elements generalizing position with
  | nil => exact keeps_pure nofun
  | cons element rest ih =>
    obtain ⟨helement, hrest⟩ := List.forall_mem_cons.1 helements
    refine keeps_bind (keeps_pulled operand position helement) fun answer hanswer => ?_
    cases answer with
    | error error => exact keeps_pure (hanswer error rfl)
    | ok keep =>
      refine keeps_bind (ih (position + 1) hrest) fun r hr => ?_
      cases r with
      | error error => exact keeps_pure hr
      | ok vs =>
        cases keep with
        | true => exact keeps_pure (List.forall_mem_cons.2 ⟨helement, hr⟩)
        | false => exact keeps_pure hr

theorem obeys_arrayOrError {r : Except Value (List Value)} (h : PartsOrError d r) :
    d.Obeys (arrayOrError r) := by
  cases r with
  | ok vs => exact obeys_ofList h
  | error error => exact h

theorem keeps_shiftValues (op : ShiftOp) (hv : d.Storable v) (hw : d.Storable w) :
    (shiftValues op v w : Run σ Value).Keeps d d.Obeys := by
  unfold shiftValues
  split
  case h_1 =>
    refine keeps_bind (keeps_pushAll hw.1 0 _ (storable_elements hv.1)) fun r hr => ?_
    exact keeps_pure (obeys_arrayOrError hr)
  case h_2 =>
    refine keeps_bind (keeps_pullAll w 0 _ (storable_elements hv.1)) fun r hr => ?_
    exact keeps_pure (obeys_arrayOrError hr)
  case h_3 => exact keeps_pure (obeys_joined hv hw)
  case h_4 => exact keeps_pure (obeys_arranged hv.1 w)
  case h_5 => exact keeps_plain rfl

theorem keeps_shift (op : ShiftOp) (left right : Expr) :
    (shift op left right : Run σ Value).Keeps d d.Obeys := by
  refine keeps_bind (keeps_eval left) fun a ha => ?_
  refine keeps_bind (keeps_eval right) fun b hb => ?_
  split
  · exact keeps_pure ha
  case isFalse hleft =>
    split
    · exact keeps_pure hb
    case isFalse hright =>
      exact keeps_shiftValues op (storable_of_not_error ha (Bool.eq_false_iff.2 hleft))
        (storable_of_not_error hb (Bool.eq_false_iff.2 hright))

/-! ## Parts of values -/

theorem keeps_heldText? (e : Expr) :
    (heldText? e : Run σ (Option String)).Keeps d fun _ => True := by
  unfold heldText?
  split
  · refine keeps_bind (keeps_lookup _) fun r _ => ?_
    split <;> exact keeps_pure trivial
  · exact keeps_pure trivial

theorem obeys_deferred (v : Value) : d.Obeys (deferred v) := by
  cases v <;> exact obeys_of_plain rfl

theorem keeps_defer (operand : Expr) : (defer operand : Run σ Value).Keeps d d.Obeys := by
  refine keeps_bind (keeps_heldText? operand) fun held _ => ?_
  split
  · exact keeps_plain rfl
  · exact keeps_bind (keeps_eval operand) fun v _ => keeps_pure (obeys_deferred v)

theorem keeps_indexByMark (roller : Roller σ) (mark : String) (hv : d.Obeys v) :
    (indexByMark roller v mark).Keeps d d.Obeys := by
  unfold indexByMark
  split
  · exact keeps_plain rfl
  · split
    · exact keeps_plain rfl
    · split
      · split
        · exact keeps_plain rfl
        · refine keeps_bind (keeps_tray _) fun position _ => ?_
          exact keeps_ofExcept fun w hw => obeys_at? hv hw
      · exact keeps_plain rfl

theorem keeps_index (roller : Roller σ) (container position : Expr) :
    (index roller container position).Keeps d d.Obeys := by
  refine keeps_bind (keeps_eval container) fun c hc => ?_
  refine keeps_bind (keeps_eval position) fun i hi => ?_
  split
  · exact keeps_pure hc
  · split
    · exact keeps_pure hi
    · split
      · exact keeps_indexByMark roller _ hc
      · exact keeps_ofExcept fun w hw => obeys_at? hc hw

theorem keeps_keepTarget (target : Expr) {r : MemberResult} (hr : d.ObeysResult r) :
    (keepTarget target r : Run σ Value).Keeps d d.Obeys := by
  unfold keepTarget
  split
  case h_1 name updated hupdated =>
    exact keeps_bind (keeps_assign (hr.2 _ hupdated)) fun _ _ => keeps_pure hr.1
  case h_2 =>
    exact keeps_pure hr.1

theorem keeps_memberOf (target : Expr) (name : String) {args : List Value} (hv : d.Obeys v)
    (hargs : ∀ arg ∈ args, d.Storable arg) :
    (memberOf target v name args : Run σ Value).Keeps d d.Obeys := by
  unfold memberOf
  split
  case h_1 =>
    refine keeps_ofExcept fun w hw => ?_
    cases Value.withArgs_eq_ok hw
    exact obeys_of_plain rfl
  case h_2 =>
    split
    · exact keeps_evalText _
    · exact keeps_plain rfl
  case h_3 =>
    -- a stored expression has been reduced, and the member is one of a value
    refine keeps_andThen (keeps_reduce hv) fun w hw => ?_
    split
    case h_1 r hr => exact keeps_keepTarget target (obeys_member hw.1 hargs hr)
    case h_2 => exact keeps_plain rfl

theorem keeps_member (target : Expr) (name : String) (args : List Expr) :
    (member target name args : Run σ Value).Keeps d d.Obeys := by
  refine keeps_bind (keeps_heldText? target) fun held _ => ?_
  refine keeps_andThen ?_ fun v hv => ?_
  · split
    · exact keeps_plain rfl
    · exact keeps_eval target
  · exact keeps_andThenAll fun args hargs => keeps_memberOf target _ hv.1 hargs

/-! ## Bonuses -/

theorem keeps_withBonusType (type : Expr) {next : BonusType → Run σ Value}
    (h : ∀ t, (next t).Keeps d d.Obeys) : (withBonusType type next).Keeps d d.Obeys := by
  refine keeps_andThen (keeps_eval type) fun v _ => ?_
  split
  · exact h _
  · exact keeps_plain rfl

theorem keeps_withBonusValue (value : Expr) {next : Integer → Run σ Value}
    (h : ∀ n, (next n).Keeps d d.Obeys) : (withBonusValue value next).Keeps d d.Obeys := by
  refine keeps_andThen (keeps_eval value) fun v _ => ?_
  split
  · exact h _
  · exact keeps_plain rfl

theorem keeps_bonus (name : Expr) (type value : Option Expr) :
    (bonus name type value : Run σ Value).Keeps d d.Obeys := by
  refine keeps_andThen (keeps_eval name) fun nameValue _ => ?_
  have hwith : ∀ (value : Expr) (t : BonusType), (withBonusValue value fun n =>
      (return .bonus ⟨nameValue.text, t, n⟩ : Run σ Value)).Keeps d d.Obeys :=
    fun value t => keeps_withBonusValue value fun n => keeps_plain rfl
  cases type with
  | none =>
    cases value with
    | none => exact keeps_plain rfl
    | some value => exact hwith value _
  | some type =>
    refine keeps_withBonusType type fun t => ?_
    cases value with
    | none => exact keeps_plain rfl
    | some value => exact hwith value t

theorem keeps_askedStat (e : Expr) :
    (askedStat e : Run σ (Except Value Stat)).Keeps d (ErrorObeys d) := by
  have hfail : ∀ message, ErrorObeys d (Except.error (.error message) : Except Value Stat) := by
    rintro message v ⟨⟩
    exact obeys_of_plain rfl
  unfold askedStat
  split
  · refine keeps_bind (keeps_lookup _) fun r _ => ?_
    split
    · exact keeps_pure nofun
    · exact keeps_pure (hfail _)
    · exact keeps_pure (hfail _)
  · refine keeps_bind (keeps_eval _) fun v _ => ?_
    split
    · exact keeps_pure nofun
    · exact keeps_pure (hfail _)
    · exact keeps_pure (hfail _)

theorem keeps_getBonus (left right : Expr) :
    (getBonus left right : Run σ Value).Keeps d d.Obeys := by
  refine keeps_bind (keeps_askedStat left) fun r hr => ?_
  cases r with
  | ok s => exact keeps_withBonusType right fun t => keeps_plain rfl
  | error error => exact keeps_pure (hr error rfl)

/-! ## Dice -/

theorem keeps_roll (roller : Roller σ) (spec : DiceSpec) : (roll roller spec).Keeps d d.Obeys := by
  refine keeps_bind (keeps_tray _) fun r _ => ?_
  split <;> exact keeps_plain rfl

theorem keeps_rollTimes (roller : Roller σ) (spec : DiceSpec) (n : Nat) (total : Integer) :
    (rollTimes roller spec n total).Keeps d d.Obeys := by
  induction n generalizing total with
  | zero => exact keeps_plain rfl
  | succ n ih =>
    refine keeps_bind (keeps_roll roller spec) fun v hv => ?_
    split
    · split
      · exact ih _
      · exact keeps_plain rfl
    · exact keeps_pure hv

theorem keeps_rollRepeated (roller : Roller σ) (spec : DiceSpec) (count : Value) :
    (rollRepeated roller spec count).Keeps d d.Obeys := by
  unfold rollRepeated
  split
  · split
    · exact keeps_rollTimes roller spec _ _
    · exact keeps_plain rfl
  · exact keeps_plain rfl

theorem keeps_operands (op : BinaryOp) (left right : Expr) :
    (do
      let a ← Run.eval left
      let b ← Run.eval right
      return Value.binary op a b : Run σ Value).Keeps d d.Obeys := by
  refine keeps_bind (keeps_eval left) fun a ha => ?_
  refine keeps_bind (keeps_eval right) fun b hb => ?_
  exact keeps_pure (obeys_binary op ha hb)

theorem keeps_multiplied (roller : Roller σ) (op : BinaryOp) (dice count : Expr) :
    (multiplied roller op dice count).Keeps d d.Obeys := by
  unfold multiplied
  dsimp only
  split
  · split
    · exact keeps_andThen (keeps_eval count) fun v _ => keeps_rollRepeated roller _ v
    · exact keeps_operands op _ count
  · exact keeps_operands op _ count

/-! ## Control -/

theorem keeps_choose (branches : Branches) : (choose branches : Run σ Value).Keeps d d.Obeys := by
  fun_induction (choose branches : Run σ Value) with
  | case1 => exact keeps_plain rfl
  | case2 body => exact keeps_eval body
  | case3 condition body rest ih =>
    refine keeps_andThen (keeps_eval condition) fun v _ => ?_
    split
    · exact keeps_eval body
    · exact ih

theorem obeyAll_loopItems {items : List Value} (hv : d.Obeys v) (h : loopItems v = .ok items) :
    ObeyAll d items := by
  have hints : ∀ ns : List Integer, ObeyAll d (ns.map .int) := by
    intro ns w hw
    obtain ⟨n, -, rfl⟩ := List.mem_map.1 hw
    exact obeys_of_plain rfl
  unfold loopItems at h
  split at h
  case h_1 =>
    cases h
    exact hints _
  case h_2 =>
    cases h
    exact fun e he => (storable_elements hv e he).1
  case h_3 =>
    cases h
    split
    · exact hints _
    · exact nofun
  case h_4 => cases h

theorem keeps_loopOver (name : String) (body : Expr) (items : List Value)
    (hitems : ObeyAll d items) (hv : d.Obeys v) :
    (loopOver name body items v : Run σ Value).Keeps d d.Obeys := by
  induction items generalizing v with
  | nil => exact keeps_pure hv
  | cons item rest ih =>
    obtain ⟨hitem, hrest⟩ := List.forall_mem_cons.1 hitems
    refine keeps_bind (keeps_assign hitem) fun _ _ => ?_
    exact keeps_bind (keeps_eval body) fun w hw => ih hrest hw

theorem keeps_loop (name : String) (iterable body : Expr) :
    (loop name iterable body : Run σ Value).Keeps d d.Obeys := by
  refine keeps_andThen (keeps_eval iterable) fun v hv => ?_
  split
  case h_1 items hitems =>
    exact keeps_loopOver name body items (obeyAll_loopItems hv.1 hitems) (obeys_of_plain rfl)
  case h_2 => exact keeps_plain rfl

/-! ## Every kind of expression -/

theorem keeps_binary (op : BinaryOp) (left right : Expr) :
    (binary op left right : Run σ Value).Keeps d d.Obeys := by
  unfold binary
  split
  · exact keeps_getBonus left right
  · exact keeps_operands op left right

theorem keeps_pair (key value : Expr) : (pair key value : Run σ Value).Keeps d d.Obeys := by
  have hvalue : ∀ k, d.Storable k → (andThen (Run.eval value) fun v =>
      (return .pair k v : Run σ Value)).Keeps d d.Obeys := by
    intro k hk
    refine keeps_andThen (keeps_eval value) fun v hv => ?_
    exact keeps_pure (obeys_pair_of_storable hk hv)
  unfold pair
  dsimp only
  split
  · exact hvalue _ (storable_of_plain rfl rfl)
  · exact keeps_andThen (keeps_eval _) hvalue

theorem keeps_event (argument : Expr) : (event argument : Run σ Value).Keeps d d.Obeys := by
  refine keeps_bind (keeps_eval argument) fun v hv => ?_
  exact keeps_bind (keeps_writeLine _) fun _ _ => keeps_pure hv

theorem keeps_logError (v : Value) : (logError v : Run σ Unit).Keeps d fun _ => True := by
  unfold logError
  split
  · exact keeps_writeLine _
  · exact keeps_pure trivial

/-- Every rule keeps every discipline. -/
theorem keeps_step (engine : Engine σ) : ∀ e, (step engine e).Keeps d d.Obeys
  | .empty | .number _ | .text _ | .symbol _ | .stored _ | .error _ | .function .. =>
    keeps_plain rfl
  | .var name => keeps_readVar name
  | .dice spec => keeps_roll engine.roller spec
  | .unary op operand => keeps_bind (keeps_eval operand) fun v hv => keeps_pure (obeys_unary op hv)
  | .binary op left right => keeps_binary op left right
  | .ternary test yes no => by
    refine keeps_andThen (keeps_eval test) fun v _ => ?_
    split
    · exact keeps_eval yes
    · exact keeps_eval no
  | .shift op left right => keeps_shift op left right
  | .pair key value => keeps_pair key value
  | .multiplied op dice count => keeps_multiplied engine.roller op dice count
  | .index container position => keeps_index engine.roller container position
  | .property target name => keeps_member target name []
  | .method target name args => keeps_member target name args
  | .assign name op value => keeps_assignVar name op value
  | .assignIndex target op value => keeps_assignIndex target op value
  | .choice branches => keeps_choose branches
  | .loop name iterable body => keeps_loop name iterable body
  -- the first part of a sequence is on its own level, so its rule is used and not asked for
  | .sequence first rest => by
    refine keeps_bind (keeps_step engine first) fun v _ => ?_
    exact keeps_bind (keeps_logError v) fun _ _ => keeps_eval rest
  | .pipe first rest => by
    refine keeps_bind (keeps_step engine first) fun v _ => ?_
    split
    · exact keeps_bind (keeps_writeLine _) fun _ _ => keeps_eval rest
    · exact keeps_eval rest
  | .call name args => keeps_call engine.roller name args
  | .apply callee args => keeps_apply callee args
  | .array elements => keeps_andThenAll fun vs hvs => keeps_pure (obeys_ofList hvs)
  | .bonus name type value => keeps_bonus name type value
  | .defer operand => keeps_defer operand
  | .event argument => keeps_event argument

end Eval

/-! ## Whole scripts -/

/-- An evaluator keeps a discipline: on a context that obeys it gives a value that obeys, and leaves
a context that obeys. -/
def Evaluator.Keeps (d : Discipline) (eval : Evaluator σ) : Prop :=
  ∀ e m r, d.ObeysContext m.context → eval e m = some r →
    d.Obeys r.1 ∧ d.ObeysContext r.2.context

theorem Evaluator.Keeps.text {eval : Evaluator σ} (heval : eval.Keeps d) {text : String}
    {m : Machine σ} {r : Value × Machine σ} (hm : d.ObeysContext m.context)
    (h : eval.text text m = some r) : d.Obeys r.1 ∧ d.ObeysContext r.2.context := by
  obtain ⟨script, -, hr⟩ := Option.bind_eq_some_iff.1 h
  exact heval _ _ _ hm hr

theorem keeps_reduceWithin {eval : Evaluator σ} (heval : eval.Keeps d) (n : Nat) (v : Value)
    (m : Machine σ) (r : Value × Machine σ) (hv : d.Obeys v) (hm : d.ObeysContext m.context)
    (h : eval.reduceWithin n v m = some r) : d.Obeys r.1 ∧ d.ObeysContext r.2.context := by
  fun_induction Evaluator.reduceWithin eval n v m with
  | case1 => cases h
  | case2 m n s ih =>
    obtain ⟨⟨w, m'⟩, hw, hr⟩ := Option.bind_eq_some_iff.1 h
    obtain ⟨hobeys, hcontext⟩ := heval.text hm hw
    exact ih w m' hobeys hcontext hr
  | case3 =>
    cases h
    exact ⟨hv, hm⟩

/-- What comes of a run that keeps a discipline. The induction is on the run. -/
theorem outcome_of_keeps {eval : Evaluator σ} (heval : eval.Keeps d) (patience : Nat)
    {good : α → Prop} {run : Run σ α} (hrun : run.Keeps d good) {m : Machine σ}
    (hm : d.ObeysContext m.context) {r : α × Machine σ}
    (h : run.outcome patience eval m = some r) : good r.1 ∧ d.ObeysContext r.2.context := by
  induction run generalizing m with
  | done a =>
    cases h
    exact ⟨hrun, hm⟩
  | breakdown => cases h
  | look next ih => exact ih m (hrun m hm) hm h
  | put m' next ih => exact ih hrun.2 hrun.1 h
  | ask e next ih =>
    obtain ⟨⟨v, m'⟩, hv, hr⟩ := Option.bind_eq_some_iff.1 h
    obtain ⟨hobeys, hcontext⟩ := heval _ _ _ hm hv
    exact ih v (hrun v hobeys) hcontext hr
  -- the value itself obeys, in case it is no stored expression
  | askReduced v next ih =>
    obtain ⟨⟨w, m'⟩, hw, hr⟩ := Option.bind_eq_some_iff.1 h
    obtain ⟨hobeys, hcontext⟩ := keeps_reduceWithin heval patience v m _ hrun.1 hm hw
    exact ih w (hrun.2 w hobeys) hcontext hr

namespace Eval

/-- The induction is on the levels that are left. -/
theorem evalWithin_keeps (engine : Engine σ) (n : Nat) : (evalWithin engine n).Keeps d := by
  induction n with
  | zero =>
    intro e m r hm h
    cases h
    exact ⟨Discipline.obeys_of_plain rfl, hm⟩
  | succ n ih =>
    intro e m r hm h
    exact outcome_of_keeps ih engine.patience (keeps_step engine e) hm h

end Eval

namespace Session

/-- A session runs scripts one after another. The outputs are those of the scripts in order. -/
inductive Runs : Session σ → List Output → Session σ → Prop
  | none {s} : Runs s [] s
  | script {s text output s₁ outputs s'} : s.run text = some (output, s₁) → Runs s₁ outputs s' →
      Runs s (output :: outputs) s'

theorem run_keeps {s s' : Session σ} {text : String} {output : Output}
    (hs : d.ObeysContext s.context) (h : s.run text = some (output, s')) :
    d.Obeys output.value ∧ d.ObeysContext s'.context := by
  obtain ⟨⟨v, m⟩, hrun, heq⟩ := Option.map_eq_some_iff.1 h
  cases heq
  exact (Eval.evalWithin_keeps s.engine _).text hs hrun

/-- The induction is on the scripts that are run. -/
theorem runs_keep {s s' : Session σ} {outputs : List Output} (h : Runs s outputs s')
    (hs : d.ObeysContext s.context) :
    (∀ output ∈ outputs, d.Obeys output.value) ∧ d.ObeysContext s'.context := by
  induction h with
  | none => exact ⟨nofun, hs⟩
  | script hrun _ ih =>
    obtain ⟨hvalue, hcontext⟩ := run_keeps hs hrun
    obtain ⟨houtputs, hs'⟩ := ih hcontext
    exact ⟨List.forall_mem_cons.2 ⟨hvalue, houtputs⟩, hs'⟩

/-- What a session holds after scripts, and what they gave, obeys. -/
theorem obeys_of_runs {s s' : Session σ} {outputs : List Output} (h : Runs s outputs s')
    (hs : d.ObeysContext s.context) {v : Value}
    (hv : s'.context.Holds v ∨ ∃ output ∈ outputs, output.value = v) : d.Obeys v := by
  obtain ⟨houtputs, hcontext⟩ := runs_keep h hs
  rcases hv with hv | ⟨output, houtput, rfl⟩
  · exact hcontext v hv
  · exact houtputs output houtput

end Session

end DiceScript
