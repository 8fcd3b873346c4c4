import DiceScript.Proofs.Value.Order
import DiceScript.Proofs.Value.Shape

/-!
Equality as scripts see it. It reads a stat as the integer that the stat counts as, and goes by the
shapes of values. A stat whose value does not fit cannot be read, so that a value with such a stat
in it is equal to nothing, not even to itself.
-/

namespace DiceScript.Value

variable {a b v : Value} {es fs : List Value} {s : Stat}

/-- A stat as the integer that it counts as, if there is one. -/
def number (s : Stat) : Value := (s.value?.map int).getD (.stat s)

/-- No stat in the value has a value that does not fit. -/
def Fitting (v : Value) : Prop := v.AllStats fun s => s.value? ≠ none

/-! ## Value by value -/

theorem equalAll_iff : equalAll es fs = true ↔ List.Forall₂ (fun e f => e.equal f = true) es fs :=
  all_iff rfl (fun _ _ _ _ => rfl) (fun _ _ => rfl) fun _ _ => rfl

/-- What counts as a number is equal to what counts as the same number. -/
theorem equal_of_number {n : Integer} (h : a.int? = some n) :
    a.equal b = true ↔ b.int? = some n := by
  unfold equal
  cases hb : b.int? with
  | some m =>
    rw [h, Option.some.injEq, beq_iff_eq]
    exact eq_comm
  | none =>
    cases a with
    | int m => simp [int?]
    | stat s => simp [h]
    | _ => cases h

theorem equal_of_overflows (h : a.Overflows) : a.equal b = false := by
  obtain ⟨s, rfl, hs⟩ := h
  have hnone : (stat s).int? = none := hs
  unfold equal
  simp [hnone]

/-- All other values that are not made of others are equal to themselves alone. -/
theorem equal_of_plain (ha : a.isPlain = true) (hnot : a.int? = none) :
    a.equal b = true ↔ a = b := by
  constructor
  · intro h
    cases a with
    | int n => cases hnot
    | array | pair | stat => cases ha
    -- values of two kinds are not equal, and those of one kind hold the same
    | _ => cases b <;> first | cases h | exact congrArg _ (eq_of_beq h)
  · rintro rfl
    cases a with
    | int n => cases hnot
    | array | pair | stat => cases ha
    | _ => exact beq_self_eq_true _

theorem number_of_value? {n : Integer} (h : s.value? = some n) : number s = int n := by
  rw [number, h]
  rfl

/-! ## By shape -/

/-- A value counts as the integer that it is read as. -/
theorem int?_eq_some_iff {n : Integer} : v.int? = some n ↔ v.Fitting ∧ int n = v.shape number := by
  rw [eq_shape_iff rfl]
  constructor
  · intro h
    cases v with
    | int m =>
      cases h
      exact ⟨allStats_of_plain rfl, .inl rfl⟩
    | stat s =>
      have hs : s.value? = some n := h
      exact ⟨allStats_stat.2 (by simp [hs]), .inr ⟨s, rfl, (number_of_value? hs).symm⟩⟩
    | _ => cases h
  · rintro ⟨hfitting, rfl | ⟨s, rfl, hn⟩⟩
    · rfl
    · obtain ⟨m, hm⟩ := Option.ne_none_iff_exists'.1 (allStats_stat.1 hfitting)
      rw [number_of_value? hm] at hn
      cases hn
      exact hm

/-- Equality goes by the integers that stats count as. -/
theorem equal_agrees : Agrees equal (fun s => s.value? ≠ none) number where
  arrays _ _ _ _ := equalAll_iff
  array_other _ _ b hb := by
    cases b with
    | array => cases hb
    | _ => rfl
  pairs _ _ _ _ := rfl
  pair_other _ _ b hb := by
    cases b with
    | pair => cases hb
    | _ => rfl
  stat s b := by
    cases hs : s.value? with
    | none => simp [equal_of_overflows ⟨s, rfl, hs⟩]
    | some n =>
      rw [equal_of_number (show (stat s).int? = some n from hs), int?_eq_some_iff,
        number_of_value? hs]
      exact (and_iff_right nofun).symm
  plain {a} ha b := by
    cases hnumber : a.int? with
    | some n =>
      rw [equal_of_number hnumber, int?_eq_some_iff]
      cases a with
      | int m =>
        cases hnumber
        rfl
      | stat => cases ha
      | _ => cases hnumber
    | none =>
      rw [equal_of_plain ha hnumber, eq_shape_iff ha]
      constructor
      · rintro rfl
        exact ⟨allStats_of_plain ha, .inl rfl⟩
      · rintro ⟨hb, h | ⟨s, rfl, hn⟩⟩
        · exact h
        -- a stat that fits is read as a number, which the other value is not
        · obtain ⟨m, hm⟩ := Option.ne_none_iff_exists'.1 (allStats_stat.1 hb)
          rw [hn, number_of_value? hm] at hnumber
          cases hnumber
  atomic s := by
    unfold number
    cases s.value? <;> exact ⟨rfl, rfl⟩

/-- Equality holds either way round and passes from value to value. A value is equal to itself
exactly if no stat in it has a value that does not fit. -/
theorem equality_is_an_equivalence_where_stats_fit (a b c : Value) :
    (a.equal a = true ↔ a.Fitting) ∧ (a.equal b = true → b.equal a = true) ∧
      (a.equal b = true → b.equal c = true → a.equal c = true) := by
  refine ⟨?_, ?_, ?_⟩
  · exact equal_agrees.refl_iff
  · exact equal_agrees.symm
  · exact equal_agrees.trans

/-- Hit points: ten, and two from luck. -/
def lucky : Value := stat ⟨10, some [⟨"clover", .luck, 2⟩], none⟩

/-- Hit points as they are while an override lasts. -/
def shifted : Value := stat ⟨30, none, some ⟨"bear", .override, 12⟩⟩

/-- A value in an array, and once more in a pair in the array. -/
def nested (v : Value) : Value := array [v, pair (str "hp") (array [v] none)] none

theorem fitting_nested (h : v.Fitting) : (nested v).Fitting := by
  have hinner : (array [v] none).Fitting := allStats_array.2 (List.forall_mem_singleton.2 h)
  have hpair : (pair (str "hp") (array [v] none)).Fitting :=
    allStats_pair.2 ⟨allStats_of_plain rfl, hinner⟩
  exact allStats_array.2 (List.forall_mem_cons.2 ⟨h, List.forall_mem_singleton.2 hpair⟩)

/-- Twelve hit points are equal to twelve hit points, however they are made up and wherever they
are. -/
theorem twelve_hit_points_are_equal :
    (nested lucky).Fitting ∧ (nested lucky).equal (nested lucky) = true ∧
      (nested lucky).equal (nested (int 12)) = true ∧
      (nested (int 12)).equal (nested lucky) = true ∧
      (nested (int 12)).equal (nested shifted) = true ∧
      (nested lucky).equal (nested shifted) = true := by
  have hfits : (nested lucky).Fitting := fitting_nested (allStats_stat.2 (by decide +kernel))
  have hlucky : (nested lucky).equal (nested (int 12)) = true := by decide +kernel
  have hshifted : (nested (int 12)).equal (nested shifted) = true := by decide +kernel
  obtain ⟨hself, hsymm, htrans⟩ := equality_is_an_equivalence_where_stats_fit (nested lucky)
    (nested (int 12)) (nested shifted)
  exact ⟨hfits, hself.2 hfits, hlucky, hsymm hlucky, hshifted, htrans hlucky hshifted⟩

/-- A stat whose value does not fit is not equal to itself, nor is an array of it. -/
theorem a_towering_stat_is_not_equal_to_itself :
    towering.equal towering = false ∧
      (array [towering] none).equal (array [towering] none) = false := by
  decide +kernel

end DiceScript.Value
