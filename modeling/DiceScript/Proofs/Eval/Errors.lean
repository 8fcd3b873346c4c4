import DiceScript.Proofs.Eval.Upkeep

/-!
Errors inside data, over whole runs. An error is a value like any other: it is held by variables,
given to functions and handed on by operators. But no array has one as an element, and no pair has
one as its key or its value: what would put an error there gives that error instead.
-/

namespace DiceScript

/-- An error occurs in the value without being the whole of it. -/
def Value.HidesError (v : Value) : Prop :=
  ∃ message, (Value.error message).Occurs v ∧ v ≠ .error message

namespace Discipline

/-- The discipline that no part of a value is an error. -/
def flawless : Discipline where
  node
    | .array es _ => ∀ e ∈ es, e.isError = false
    | .pair k v => k.isError = false ∧ v.isError = false
    | _ => True
  part v := v.isError = false
  plain {v} h := by cases v <;> trivial
  part_of_not_error h := h
  part_of_element h he := h _ he
  part_of_pair h := h
  node_pair hk hv := ⟨hk, hv⟩
  node_ofList h := h
  node_push h hv := by
    intro e he
    rcases List.mem_append.1 he with he | he
    · exact h e he
    · rw [List.mem_singleton.1 he]
      exact hv
  node_add _ := trivial
  node_remove _ := trivial
  node_setBase _ := trivial

/-- A value that errors occur in is an error itself, if no part of it is one. -/
theorem eq_error_of_occurs {v : Value} {message : String} (h : flawless.Obeys v)
    (hoccurs : (Value.error message).Occurs v) : v = .error message := by
  induction hoccurs with
  | here => rfl
  | element he _ ih =>
    obtain ⟨hobeys, hpart⟩ := storable_elements h _ he
    cases ih hobeys
    cases hpart
  | key _ ih =>
    obtain ⟨hobeys, hpart⟩ := (storable_of_pair h).1
    cases ih hobeys
    cases hpart
  | value _ ih =>
    obtain ⟨hobeys, hpart⟩ := (storable_of_pair h).2
    cases ih hobeys
    cases hpart

end Discipline

namespace Value

theorem Occurs.trans {u v w : Value} (huv : u.Occurs v) (hvw : v.Occurs w) : u.Occurs w := by
  induction hvw with
  | here => exact huv
  | element he _ ih => exact .element he ih
  | key _ ih => exact .key ih
  | value _ ih => exact .value ih

/-- A value that a part of the value has as a part is no error, if no error hides in the value. -/
theorem not_error_of_part {part whole v : Value} (h : ¬ v.HidesError) (hpart : part.Occurs whole)
    (hwhole : whole.Occurs v) (hne : whole.isError = false) : part.isError = false := by
  cases part with
  | error message =>
    refine absurd ⟨message, hpart.trans hwhole, ?_⟩ h
    rintro rfl
    -- nothing occurs in an error but the error
    cases hwhole
    cases hne
  | _ => rfl

end Value

theorem Discipline.obeys_flawless_iff {v : Value} : flawless.Obeys v ↔ ¬ v.HidesError := by
  constructor
  · rintro h ⟨message, hoccurs, hne⟩
    exact hne (eq_error_of_occurs h hoccurs)
  · intro h w hw
    cases w with
    | array es ks => exact fun e he => Value.not_error_of_part h (.element he .here) hw rfl
    | pair k u =>
      exact ⟨Value.not_error_of_part h (.key .here) hw rfl,
        Value.not_error_of_part h (.value .here) hw rfl⟩
    | _ => trivial

namespace Session

/-- If no error hides in the variables of a session, then none hides in a value that scripts of the
session give, nor in its variables afterwards. -/
theorem errors_never_hide_inside_data {σ : Type} (start last : Session σ) (outputs : List Output)
    (hstart : ∀ v, start.context.Holds v → ¬ v.HidesError) (hruns : Runs start outputs last)
    (v : Value) (hv : last.context.Holds v ∨ ∃ output ∈ outputs, output.value = v) :
    ¬ v.HidesError := by
  have hobeys : Discipline.flawless.ObeysContext start.context :=
    fun w hw => Discipline.obeys_flawless_iff.2 (hstart w hw)
  obtain ⟨houtputs, hlast⟩ := runs_keep hruns hobeys
  apply Discipline.obeys_flawless_iff.1
  rcases hv with hv | ⟨output, houtput, rfl⟩
  · exact hlast v hv
  · exact houtputs output houtput

/-- A session with a variable that is an error and a variable that is an array. -/
def mishap : Session (List Integer) where
  id := 1
  engine := ⟨.standard, .queue, 1⟩
  context := ⟨[], ⟨[("LOST", .error "gone"), ("BAG", .ofList [.int 1, .pair (.str "b") (.int 2)])]⟩⟩
  dice := []

theorem mishap_flawless (v : Value) (h : mishap.context.Holds v) : ¬ v.HidesError := by
  apply Discipline.obeys_flawless_iff.1
  rcases Context.holds_iff.1 h with ⟨f, hf, -⟩ | ⟨name, hmem⟩
  · cases hf
  · rcases List.mem_pair.1 hmem with hmem | hmem
    · cases hmem
      exact Discipline.obeys_of_plain rfl
    · cases hmem
      have hpair : Discipline.flawless.Storable (.pair (.str "b") (.int 2)) :=
        ⟨Discipline.obeys_pair_of_storable (Discipline.storable_of_plain rfl rfl)
          (Discipline.storable_of_plain rfl rfl), rfl⟩
      refine Discipline.obeys_ofList ?_
      simp only [List.forall_mem_cons]
      exact ⟨Discipline.storable_of_plain rfl rfl, hpair, nofun⟩

/-- Every way to put the error into the array fails with that error, and leaves the array without
it. -/
theorem a_mishap_stays_out_of_the_bag :
    ∃ output last, Runs mishap [output] last ∧ output.log = ["gone", "gone", "gone", "gone"] ∧
      output.value.isArray = true ∧ ¬ output.value.HidesError ∧
      ∀ v, last.context.Holds v → ¬ v.HidesError := by
  have hrun : (mishap.run "[lost]; bag[0] = lost; bag >>* lost; bag + lost; bag").map
      (fun r => (r.1.log, r.1.value.isArray)) =
        some (["gone", "gone", "gone", "gone"], true) := by decide +kernel
  obtain ⟨⟨output, last⟩, hrun, hseen⟩ := Option.map_eq_some_iff.1 hrun
  have hruns : Runs mishap [output] last := .script hrun .none
  have hdata := errors_never_hide_inside_data mishap last [output] mishap_flawless hruns
  obtain ⟨hlog, harray⟩ := Prod.mk.inj hseen
  exact ⟨output, last, hruns, hlog, harray,
    hdata _ (.inr ⟨output, List.mem_singleton_self _, rfl⟩), fun v hv => hdata v (.inl hv)⟩

end Session

end DiceScript
