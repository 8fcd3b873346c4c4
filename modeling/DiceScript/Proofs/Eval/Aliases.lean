import DiceScript.Proofs.Eval.Upkeep

/-!
The aliases of all arrays, over whole runs. That every array has the aliases that its elements ought
to have is a discipline, so no script makes the aliases of an array drift from its elements.
-/

namespace DiceScript

namespace Session

/-- If every array that occurs in the variables of a session has the aliases that its elements ought
to have, then so has every array that occurs in a value that scripts of the session give, and every
array that occurs in its variables afterwards. A key of such an array finds what a scan of the
elements finds, and the position it finds is the position of an element. -/
theorem aliases_never_drift_from_elements {σ : Type} (start last : Session σ)
    (outputs : List Output) (hstart : ∀ v, start.context.Holds v → v.Faithful)
    (hruns : Runs start outputs last) (v : Value)
    (hv : last.context.Holds v ∨ ∃ output ∈ outputs, output.value = v) (es : List Value)
    (ks : Option Aliases) (hoccurs : (Value.array es ks).Occurs v) :
    ks = Aliases.expected es ∧ ∀ key, (Items.mk es ks).FindsByScan key := by
  have hobeys : Discipline.faithful.ObeysContext start.context :=
    fun w hw => Discipline.obeys_faithful_iff.2 (hstart w hw)
  obtain ⟨houtputs, hlast⟩ := runs_keep hruns hobeys
  have hfaithful : (Items.mk es ks).Faithful := by
    rcases hv with hv | ⟨output, houtput, rfl⟩
    · exact hlast v hv _ hoccurs
    · exact houtputs output houtput _ hoccurs
  exact ⟨hfaithful, Items.findsByScan_of_faithful hfaithful⟩

/-- A session with a variable that holds two pairs whose keys have the same name, and a pair whose
key is a number. -/
def wounded : Session (List Integer) where
  id := 1
  engine := ⟨.standard, .queue, 1⟩
  context := ⟨[], ⟨[("X", .ofList [.pair (.str "Hit Points") (.int 7),
    .pair (.str "HIT points") (.int 8), .pair (.int 5) (.int 9)])]⟩⟩
  dice := []

theorem wounded_faithful (v : Value) (h : wounded.context.Holds v) : v.Faithful := by
  rcases Context.holds_iff.1 h with ⟨f, hf, -⟩ | ⟨name, hmem⟩
  · cases hf
  · cases List.mem_singleton.1 hmem
    have hpair : ∀ key value : Value, key.isPlain = true → value.isPlain = true →
        (Value.pair key value).Faithful := fun key value hkey hvalue =>
      Value.Faithful.pair (Value.Faithful.of_plain hkey) (Value.Faithful.of_plain hvalue)
    refine Value.Faithful.ofList ?_
    simp only [List.forall_mem_cons]
    exact ⟨hpair _ _ rfl rfl, hpair _ _ rfl rfl, hpair _ _ rfl rfl, nofun⟩

/-- What the variable of the wounded session holds after a pair is added and a key is assigned
to. -/
def healed : Items where
  elements := [.pair (.str "Hit Points") (.int 3), .pair (.str "HIT points") (.int 8),
    .pair (.int 5) (.int 9), .pair (.str "mana") (.int 2)]
  keys := some [("HIT_POINTS", 0), ("5", 2), ("MANA", 3)]

/-- Of two pairs with the same name the first is assigned to, and a pair that is added is found. -/
theorem a_changed_array_is_found_by_scan :
    ∃ output last, Runs wounded [output] last ∧ output.value = healed.toValue ∧
      healed.keys = Aliases.expected healed.elements ∧ (∀ key, healed.FindsByScan key) ∧
      healed.getKey? "hit points" = some (.int 3) ∧ healed.getKey? "mana" = some (.int 2) := by
  have hpoints : healed.getKey? "hit points" = some (.int 3) := by cbv
  have hmana : healed.getKey? "mana" = some (.int 2) := by cbv
  have hvalue : (wounded.run "x = x + (\"mana\": 2); x[\"hit POINTS\"] = 3; x").map
      (fun r => r.1.value) = some healed.toValue := by cbv
  obtain ⟨⟨output, last⟩, hrun, houtput⟩ := Option.map_eq_some_iff.1 hvalue
  have hruns : Runs wounded [output] last := .script hrun .none
  obtain ⟨hkeys, hscan⟩ := aliases_never_drift_from_elements wounded last [output]
    wounded_faithful hruns healed.toValue (.inr ⟨output, List.mem_singleton_self _, houtput⟩) _ _
    .here
  exact ⟨output, last, hruns, houtput, hkeys, hscan, hpoints, hmana⟩

end Session

end DiceScript
