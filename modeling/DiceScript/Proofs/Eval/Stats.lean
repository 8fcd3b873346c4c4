import DiceScript.Proofs.Eval.Upkeep
import DiceScript.Proofs.Stat

/-!
The stats of a context, over whole runs. Scripts change stats only by putting bonuses on them,
taking bonuses off and setting the base, wherever the stats are. That stats are well-formed is
therefore a discipline.
-/

namespace DiceScript

/-- Every stat that occurs in a value is well-formed. -/
def Value.WellFormedStats (v : Value) : Prop := ∀ s, (Value.stat s).Occurs v → s.WellFormed

namespace Discipline

/-- The discipline that stats are well-formed. Any value may be a part of others. -/
def wellFormedStats : Discipline where
  node
    | .stat s => s.WellFormed
    | _ => True
  part _ := True
  plain {v} h := by
    cases v with
    | stat => cases h
    | _ => trivial
  part_of_not_error _ := trivial
  part_of_element _ _ := trivial
  part_of_pair _ := ⟨trivial, trivial⟩
  node_pair _ _ := trivial
  node_ofList _ := trivial
  node_push _ _ := trivial
  node_add h := Stat.wellFormed_add h _
  node_remove h := Stat.wellFormed_remove h _
  node_setBase h := Stat.wellFormed_setBase h _

theorem obeys_wellFormedStats_iff {v : Value} : wellFormedStats.Obeys v ↔ v.WellFormedStats := by
  constructor
  · exact fun h s hoccurs => h _ hoccurs
  · intro h w hoccurs
    cases w with
    | stat s => exact h s hoccurs
    | _ => trivial

end Discipline

namespace Session

/-- Whatever operations are done to a stat that was made without bonuses, it is well-formed, its
list has the accepted bonuses that no later operation took off, in order, and it has bonuses exactly
if one of these or an override is left. And if every stat that occurs in the variables of a session
is well-formed, then so is every stat that occurs in a value that scripts of the session give, and
every stat that occurs in its variables afterwards. -/
theorem stats_stay_well_formed (σ : Type) :
    (∀ base ops, (Stat.after base ops).WellFormed ∧
      (Stat.after base ops).bonusList = Stat.remaining ops ∧
      ((Stat.after base ops).hasBonuses = true ↔
        Stat.remaining ops ≠ [] ∨ (Stat.after base ops).overriding ≠ none)) ∧
    ∀ (start last : Session σ) outputs, (∀ v, start.context.Holds v → v.WellFormedStats) →
      Runs start outputs last → ∀ v, (last.context.Holds v ∨ ∃ output ∈ outputs, output.value = v) →
        v.WellFormedStats := by
  constructor
  · intro base ops
    have hstat := Stat.wellFormed_after base ops
    have hbonuses := Stat.hasBonuses_iff hstat
    rw [Stat.bonusList_after] at hbonuses
    exact ⟨hstat, Stat.bonusList_after base ops, hbonuses⟩
  · intro start last outputs hstart hruns v hv
    have hobeys : Discipline.wellFormedStats.ObeysContext start.context :=
      fun w hw => Discipline.obeys_wellFormedStats_iff.2 (hstart w hw)
    exact Discipline.obeys_wellFormedStats_iff.1 (obeys_of_runs hruns hobeys hv)

/-- A session with a stat that has one bonus, and the same stat in an array. -/
def raging : Session (List Integer) where
  id := 1
  engine := ⟨.standard, .queue, 1⟩
  context := ⟨[], ⟨[("STR", .stat ⟨10, some [⟨"rage", .morale, 2⟩], none⟩),
    ("PARTY", .ofList [.int 1, .stat ⟨10, some [⟨"rage", .morale, 2⟩], none⟩])]⟩⟩
  dice := []

theorem raging_wellFormed (v : Value) (h : raging.context.Holds v) : v.WellFormedStats := by
  have hstat : Discipline.wellFormedStats.Obeys
      (.stat ⟨10, some [⟨"rage", .morale, 2⟩], none⟩) := by
    refine Discipline.obeys_stat.2 ⟨by simp, ?_, nofun⟩
    intro b hb
    rw [List.mem_singleton.1 hb]
    exact ⟨by decide, by decide, by decide, by decide⟩
  apply Discipline.obeys_wellFormedStats_iff.1
  rcases Context.holds_iff.1 h with ⟨f, hf, -⟩ | ⟨name, hmem⟩
  · cases hf
  · rcases List.mem_pair.1 hmem with hmem | hmem
    · cases hmem
      exact hstat
    · cases hmem
      refine Discipline.obeys_ofList ?_
      simp only [List.forall_mem_cons]
      exact ⟨Discipline.storable_of_plain rfl rfl, ⟨hstat, trivial⟩, nofun⟩

/-- The stat that a value is. -/
def stat? : Value → Option Stat
  | .stat s => some s
  | _ => none

/-- The wildcard takes the only bonus off the variable, and its own name takes it off the array.
What is left in the variable is an override, and no empty list. -/
theorem a_rage_ends_without_an_empty_list :
    ∃ output last, Runs raging [output] last ∧
      stat? output.value = some ⟨10, none, some ⟨"wild", .override, 20⟩⟩ ∧
      output.value.WellFormedStats ∧ ∀ v, last.context.Holds v → v.WellFormedStats := by
  have hvalue : (raging.run ("str += $(wild, override, 20); str -= $(*, morale); " ++
      "party[1] -= $(rage, morale, 2); str")).map (fun r => stat? r.1.value) =
        some (some ⟨10, none, some ⟨"wild", .override, 20⟩⟩) := by decide +kernel
  obtain ⟨⟨output, last⟩, hrun, houtput⟩ := Option.map_eq_some_iff.1 hvalue
  have hruns : Runs raging [output] last := .script hrun .none
  have hstats := (stats_stay_well_formed (List Integer)).2 raging last [output] raging_wellFormed
    hruns
  exact ⟨output, last, hruns, houtput,
    hstats _ (.inr ⟨output, List.mem_singleton_self _, rfl⟩), fun v hv => hstats v (.inl hv)⟩

end Session

end DiceScript
