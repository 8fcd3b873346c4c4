import DiceScript.Proofs.Stat
import DiceScript.Proofs.Value.Equality

/-!
Sameness. It reads a stat as its base, its bonuses and its override, and so tells all values apart
that differ in more than the aliases of arrays and the lists without bonuses in stats. Where arrays
have the aliases that they ought to have, and no stat has an empty list, nothing of the two is left
to differ in.
-/

namespace DiceScript

namespace Value

variable {a b k v : Value} {es fs : List Value} {ks : Option Aliases} {s : Stat}

theorem sameAll_iff : sameAll es fs = true ↔ List.Forall₂ (fun e f => e.same f = true) es fs :=
  all_iff rfl (fun _ _ _ _ => rfl) (fun _ _ => rfl) fun _ _ => rfl

theorem same_stat : (stat s).same b = true ↔ ∃ t, b = .stat t ∧ s.normalize = t.normalize := by
  have hstats : ∀ t, (stat s).same (.stat t) = true ↔ s.normalize = t.normalize := by
    intro t
    change (s.base == t.base && s.bonusList == t.bonusList && s.overriding == t.overriding) =
      true ↔ _
    rw [Bool.and_eq_true, Bool.and_eq_true, beq_iff_eq, beq_iff_eq, beq_iff_eq, and_assoc,
      Stat.normalize_eq_iff]
  constructor
  · intro h
    cases b with
    | stat t => exact ⟨t, rfl, (hstats t).1 h⟩
    | _ => cases h
  · rintro ⟨t, rfl, h⟩
    exact (hstats t).2 h

/-- On values that are neither made of others nor stats, sameness is the equality of scripts. -/
theorem same_of_plain (ha : a.isPlain = true) : a.same b = true ↔ a = b := by
  cases a with
  | array | pair | stat => cases ha
  | int n =>
    cases b with
    | int m =>
      rw [int.injEq]
      exact beq_iff_eq
    | _ => exact iff_of_false nofun nofun
  | _ =>
    cases b with
    | stat t => exact iff_of_false nofun nofun
    | _ => exact equal_of_plain rfl rfl

/-- A value without the aliases of its arrays and without empty lists in its stats. -/
def bare (v : Value) : Value := v.shape fun s => .stat s.normalize

/-- Sameness goes by all that stats are made of. -/
theorem same_agrees : Agrees same (fun _ => True) fun s => .stat s.normalize where
  arrays _ _ _ _ := sameAll_iff
  array_other _ _ b hb := by
    cases b with
    | array => cases hb
    | _ => rfl
  pairs _ _ _ _ := rfl
  pair_other _ _ b hb := by
    cases b with
    | pair => cases hb
    | _ => rfl
  stat s b := by
    rw [same_stat]
    cases b with
    | stat t => simp [shape, AllStats]
    | _ => simp [shape]
  plain {a} ha b := by
    rw [same_of_plain ha, eq_shape_iff ha]
    constructor
    · exact fun h => ⟨fun _ _ => trivial, .inl h⟩
    · rintro ⟨-, h | ⟨s, -, rfl⟩⟩
      · exact h
      · cases ha
  atomic _ := ⟨rfl, rfl⟩

theorem same_iff_bare (a b : Value) : a.same b = true ↔ a.bare = b.bare := by
  rw [same_agrees.iff_shape]
  exact ⟨fun h => h.2.2, fun h => ⟨fun _ _ => trivial, fun _ _ => trivial, h⟩⟩

theorem same_refl (v : Value) : v.same v = true := (same_iff_bare v v).2 rfl

/-! ## Tidy values -/

/-- A value is tidy if its arrays have the aliases that they ought to have, and no stat in it has an
empty list of bonuses. -/
structure Tidy (v : Value) : Prop where
  faithful : v.Faithful
  bonuses_ne_nil : v.AllStats fun s => s.bonuses ≠ some []

/-- What tidy values are, told of a value apart from its parts. -/
structure TidyNode (v : Value) : Prop where
  faithful : ∀ es ks, v = .array es ks → (Items.mk es ks).Faithful
  bonuses_ne_nil : ∀ s, v = .stat s → s.bonuses ≠ some []

theorem tidyNode_array : (array es ks).TidyNode ↔ (Items.mk es ks).Faithful := by
  constructor
  · exact fun h => h.faithful es ks rfl
  · intro h
    constructor
    · rintro _ _ ⟨⟩
      exact h
    · rintro _ ⟨⟩

theorem tidyNode_stat : (stat s).TidyNode ↔ s.bonuses ≠ some [] := by
  constructor
  · exact fun h => h.bonuses_ne_nil s rfl
  · intro h
    constructor
    · rintro _ _ ⟨⟩
    · rintro _ ⟨⟩
      exact h

theorem tidyNode_of_other (harray : v.isArray = false) (hstat : v.isStat = false) :
    v.TidyNode := by
  constructor
  · rintro es ks rfl
    cases harray
  · rintro s rfl
    cases hstat

end Value

namespace Discipline

open Value

/-- The discipline that values are tidy. Any value may be a part of others. -/
def tidy : Discipline where
  node := TidyNode
  part _ := True
  plain {v} h := by
    cases v with
    | array | stat => cases h
    | _ => exact tidyNode_of_other rfl rfl
  part_of_not_error _ := trivial
  part_of_element _ _ := trivial
  part_of_pair _ := ⟨trivial, trivial⟩
  node_pair _ _ := tidyNode_of_other rfl rfl
  node_ofList _ := tidyNode_array.2 (Items.faithful_ofList _)
  node_push h _ := tidyNode_array.2 (Items.faithful_push (tidyNode_array.1 h) _)
  node_add h := tidyNode_stat.2 (Stat.bonuses_add_ne_nil (tidyNode_stat.1 h) _)
  node_remove _ := tidyNode_stat.2 (Stat.bonuses_remove_ne_nil _ _)
  node_setBase {s _} h := tidyNode_stat.2 (show s.bonuses ≠ some [] from tidyNode_stat.1 h)

theorem obeys_tidy_iff {v : Value} : tidy.Obeys v ↔ v.Tidy := by
  constructor
  · intro h
    exact ⟨fun es ks hoccurs => (h _ hoccurs).faithful es ks rfl,
      fun s hoccurs => (h _ hoccurs).bonuses_ne_nil s rfl⟩
  · intro h w hoccurs
    constructor
    · rintro es ks rfl
      exact h.faithful es ks hoccurs
    · rintro s rfl
      exact h.bonuses_ne_nil s hoccurs

end Discipline

namespace Value

variable {a b k v : Value} {es fs : List Value} {ks : Option Aliases} {read : Stat → Value}

theorem tidy_array : (array es ks).Tidy ↔ (Items.mk es ks).Faithful ∧ ∀ e ∈ es, e.Tidy := by
  rw [← Discipline.obeys_tidy_iff, Discipline.obeys_array]
  exact and_congr tidyNode_array (forall₂_congr fun _ _ => Discipline.obeys_tidy_iff)

theorem tidy_pair : (pair k v).Tidy ↔ k.Tidy ∧ v.Tidy := by
  rw [← Discipline.obeys_tidy_iff, Discipline.obeys_pair, Discipline.obeys_tidy_iff,
    Discipline.obeys_tidy_iff]
  exact and_iff_right (tidyNode_of_other rfl rfl)

theorem eq_of_shapes_eq (h : ∀ e ∈ es, ∀ f ∈ fs, e.shape read = f.shape read → e = f)
    (hshapes : shapes read es = shapes read fs) : es = fs := by
  induction es generalizing fs with
  | nil =>
    cases fs with
    | nil => rfl
    | cons f fs => cases hshapes
  | cons e es ih =>
    cases fs with
    | nil => cases hshapes
    | cons f fs =>
      rw [shapes, shapes, List.cons.injEq] at hshapes
      have hfirst := h e List.mem_cons_self f List.mem_cons_self hshapes.1
      have hrest := ih (fun e he f hf => h e (.tail _ he) f (.tail _ hf)) hshapes.2
      rw [hfirst, hrest]

/-- Tidy values differ in no more than what is left of them when they are bare. -/
theorem eq_of_bare_eq (ha : a.Tidy) (hb : b.Tidy) (h : a.bare = b.bare) : a = b := by
  unfold bare at h
  induction a using inductionOn generalizing b with
  | plain a hplain =>
    rw [shape_of_plain hplain, eq_shape_iff hplain] at h
    rcases h with h | ⟨s, -, rfl⟩
    · exact h
    · cases hplain
  | stat s =>
    cases b with
    | stat t =>
      rw [shape, shape, Stat.normalize_of_ne_nil (allStats_stat.1 ha.bonuses_ne_nil),
        Stat.normalize_of_ne_nil (allStats_stat.1 hb.bonuses_ne_nil)] at h
      exact h
    | _ => cases h
  | array es ks ih =>
    rw [shape] at h
    obtain ⟨fs, ls, rfl, hshapes⟩ := same_agrees.shape_eq_array h
    obtain ⟨hks, hes⟩ := tidy_array.1 ha
    obtain ⟨hls, hfs⟩ := tidy_array.1 hb
    obtain rfl := eq_of_shapes_eq (fun e he f hf => ih e he (hes e he) (hfs f hf)) hshapes
    -- the aliases of both are those that the elements ought to have
    rw [show ks = ls from hks.trans hls.symm]
  | pair k v ihk ihv =>
    rw [shape] at h
    obtain ⟨l, w, rfl, hkey, hvalue⟩ := same_agrees.shape_eq_pair h
    obtain ⟨hk, hv⟩ := tidy_pair.1 ha
    obtain ⟨hl, hw⟩ := tidy_pair.1 hb
    rw [ihk hk hl hkey, ihv hv hw hvalue]

/-- On tidy values sameness is equality. -/
theorem same_iff_eq (ha : a.Tidy) (hb : b.Tidy) : a.same b = true ↔ a = b := by
  rw [same_iff_bare]
  exact ⟨eq_of_bare_eq ha hb, congrArg bare⟩

end Value

end DiceScript
