import DiceScript.Proofs.Eval.CopyBack
import DiceScript.Proofs.Eval.Upkeep
import DiceScript.Proofs.Value.Equality

/-!
What is given back is what was changed. A call compares the final values of its parameters with the
values passed for them by sameness. In a context of tidy values all that a call passes and all that
its frame holds in the end is tidy, so that values which are the same are equal, and a change is
given back exactly if there is one.
-/

namespace DiceScript.Eval

open Run Discipline

variable {σ : Type} {engine : Engine σ} {levels : Nat} {f : Function} {args : List Expr}
  {m : Machine σ} {d : Discipline}

/-- All values that a machine holds in its variables are tidy. -/
def HoldsTidy (m : Machine σ) : Prop := ∀ v, m.context.Holds v → v.Tidy

theorem holdsTidy_iff : HoldsTidy m ↔ tidy.ObeysContext m.context :=
  forall₂_congr fun _ _ => obeys_tidy_iff.symm

namespace Called

/-- A bare variable is passed at a position, and the parameter there ends with another value than
the one passed. -/
structure Changes (call : Called engine levels f args m) (x : String) (j : Nat) (v : Value) :
    Prop where
  bare : ∃ name, args[j]? = some (.var name) ∧ Name.normalize name = x
  final : ∃ param, f.params[j]? = some param ∧ call.frame.get? (Name.normalize param) = some v
  differs : ∃ w, call.passed[j]? = some w ∧ v ≠ w

theorem obeys_passed (call : Called engine levels f args m) (hm : d.ObeysContext m.context) :
    ObeyAll d call.passed ∧ d.ObeysContext call.ready.context :=
  outcome_of_keeps (evalWithin_keeps engine levels) engine.patience (keeps_values args) hm
    call.passes

/-- The frame of a call holds what was passed and what the body made. -/
theorem obeysFrame (call : Called engine levels f args m) (hm : d.ObeysContext m.context) :
    d.ObeysFrame call.frame := by
  obtain ⟨hpassed, hready⟩ := call.obeys_passed hm
  have hentered : d.ObeysContext call.entered.context :=
    obeysContext_bindParams _ _ hpassed fun v hv => hready v (Context.holds_pushScope hv)
  obtain ⟨-, hleft⟩ := (evalWithin_keeps engine levels).text hentered call.ends
  exact fun v hv => hleft v (Context.holds_popScope (.inl hv))

/-- A call on tidy values gives back exactly what it changes. -/
theorem givesBack_iff_changes (call : Called engine levels f args m) (hm : HoldsTidy m) (x : String)
    (j : Nat) (v : Value) : call.GivesBack x j v ↔ call.Changes x j v := by
  have hcontext := holdsTidy_iff.1 hm
  -- of the two values compared, one is in the frame and the other was passed
  have hdiffers : ∀ param w, call.frame.get? (Name.normalize param) = some v →
      call.passed[j]? = some w → (v.same w = false ↔ v ≠ w) := by
    intro param w hv hw
    have hfinal : v.Tidy := obeys_tidy_iff.1 (call.obeysFrame hcontext v (Frame.holds_of_get? hv))
    have hpassed : w.Tidy :=
      obeys_tidy_iff.1 ((call.obeys_passed hcontext).1 w (List.mem_of_getElem? hw))
    rw [← Bool.not_eq_true, Value.same_iff_eq hfinal hpassed]
  constructor
  · rintro ⟨hbare, ⟨param, hparam, hv⟩, w, hw, hne⟩
    exact ⟨hbare, ⟨param, hparam, hv⟩, w, hw, (hdiffers param w hv hw).1 hne⟩
  · rintro ⟨hbare, ⟨param, hparam, hv⟩, w, hw, hne⟩
    exact ⟨hbare, ⟨param, hparam, hv⟩, w, hw, (hdiffers param w hv hw).2 hne⟩

end Called

/-- The machine on which a call starts holds what evaluating its function left. -/
theorem holdsTidy_of_callsAt {site : Expr} {m' : Machine σ}
    (h : CallsAt engine levels site m f args m') (hm : HoldsTidy m) : HoldsTidy m' := by
  cases h with
  | byName => exact hm
  | byValue args hcallee =>
    exact holdsTidy_iff.2 (evalWithin_keeps engine levels _ _ _ (holdsTidy_iff.1 hm) hcallee).2

/-- Two values are the same exactly if they are equal but for the aliases of arrays and the empty
lists of stats in them, and tidy values exactly if they are equal. So a call in a context of tidy
values gives a variable back exactly where a parameter ends with another value than was passed
for it. -/
theorem sameness_is_exact (σ : Type) :
    (∀ a b : Value, a.same b = true ↔ a.bare = b.bare) ∧
    (∀ a b : Value, a.Tidy → b.Tidy → (a.same b = true ↔ a = b)) ∧
    ∀ (engine : Engine σ) (levels : Nat) (site : Expr) (m start m' : Machine σ) (f : Function)
      (args : List Expr) (v : Value), HoldsTidy m → CallsAt engine levels site m f args start →
      args.length = f.params.length → evalWithin engine (levels + 1) site m = some (v, m') →
      ∃ call : Called engine levels f args start, v = call.result ∧ call.CopiesBack m'.context ∧
        ∀ x j u, call.GivesBack x j u ↔ call.Changes x j u := by
  refine ⟨Value.same_iff_bare, fun a b => Value.same_iff_eq, ?_⟩
  intro engine levels site m start m' f args v hm hsite harity h
  obtain ⟨name, hname⟩ := evalWithin_callsAt hsite
  rw [hname] at h
  obtain ⟨call, hv, rfl⟩ := called_of_outcome harity h
  exact ⟨call, hv, call.copiesBack, call.givesBack_iff_changes (holdsTidy_of_callsAt hsite hm)⟩

/-- Hit points of which none are from luck. -/
def settled : Value := .stat (.ofBase 12)

/-- A function that makes the luck of a stat a part of its base, and a stat to pass to it. -/
def settling : Machine (List Integer) where
  context := ⟨[], ⟨[("F", .function ⟨["a"], "a = 12; a -= $(clover, luck, 2)"⟩),
    ("HP", Value.lucky)]⟩⟩
  log := .empty
  tray := ⟨[], []⟩

theorem tidy_lucky : Value.lucky.Tidy :=
  obeys_tidy_iff.1 (obeys_stat.2 (Value.tidyNode_stat.2 nofun))

theorem tidy_settled : settled.Tidy := obeys_tidy_iff.1 (obeys_stat.2 (Value.tidyNode_stat.2 nofun))

theorem holdsTidy_settling : HoldsTidy settling := by
  intro v hv
  rcases Context.holds_iff.1 hv with ⟨f, hf, -⟩ | ⟨name, hmem⟩
  · cases hf
  · rcases List.mem_pair.1 hmem with hmem | hmem
    · cases hmem
      exact obeys_tidy_iff.1 (obeys_of_plain rfl)
    · cases hmem
      exact tidy_lucky

/-- The stat that the call leaves has the same value, and is given back all the same. -/
theorem a_stat_of_the_same_value_is_given_back :
    Value.lucky.equal settled = true ∧ Value.lucky.same settled = false ∧
    ∃ v m', evalWithin ⟨.standard, .queue, 1⟩ 5 (.call "f" [.var "hp"]) settling = some (v, m') ∧
      (m'.context.lookup "hp").map settled.same = some true ∧
      ∃ call : Called ⟨.standard, .queue, 1⟩ 4 ⟨["a"], "a = 12; a -= $(clover, luck, 2)"⟩
          [.var "hp"] settling,
        v = call.result ∧ call.CopiesBack m'.context ∧
          ∀ x j u, call.GivesBack x j u ↔ call.Changes x j u := by
  obtain ⟨-, htidy, hcalls⟩ := sameness_is_exact (List Integer)
  refine ⟨by decide +kernel, ?_, ?_⟩
  · rw [← Bool.not_eq_true, htidy _ _ tidy_lucky tidy_settled]
    exact nofun
  · have hcall : (evalWithin ⟨.standard, .queue, 1⟩ 5 (.call "f" [.var "hp"]) settling).map
        (fun r => (r.2.context.lookup "hp").map settled.same) = some (some true) := by
      decide +kernel
    obtain ⟨⟨v, m'⟩, hv, hlookup⟩ := Option.map_eq_some_iff.1 hcall
    have hsite : CallsAt ⟨.standard, .queue, 1⟩ 4 (.call "f" [.var "hp"]) settling
        ⟨["a"], "a = 12; a -= $(clover, luck, 2)"⟩ [.var "hp"] settling := .byName _ rfl
    exact ⟨v, m', hv, hlookup, hcalls _ _ _ _ _ _ _ _ _ holdsTidy_settling hsite rfl hv⟩

end DiceScript.Eval
