import DiceScript.Stat
import Mathlib

/-!
Stats and what is done to them. A stat holds only bonuses that count for something, and never an
empty list of them. After any operations, its list has those bonuses that no later operation took
off, in the order in which they were put on. A removal by name takes off the override with the name
and the bonuses equal to the one that is named, also where it takes off both.
-/

namespace DiceScript

namespace Bonus

/-- A bonus that can be in the list of a stat. -/
structure Listable (b : Bonus) : Prop where
  type_ne_override : b.type ≠ .override
  type_ne_empty : b.type ≠ .empty
  value_ne_zero : b.value ≠ 0
  name_ne_wildcard : b.name ≠ wildcard

/-- A bonus that can be the override of a stat. -/
structure Overrides (b : Bonus) : Prop where
  type_eq_override : b.type = .override
  value_ne_zero : b.value ≠ 0
  name_ne_wildcard : b.name ≠ wildcard

end Bonus

namespace Stat

variable {s : Stat} {b : Bonus}

/-! ## Well-formed stats -/

/-- A stat is well-formed if its list is absent or not empty, and its list and its override have
only bonuses that can be there. -/
structure WellFormed (s : Stat) : Prop where
  bonuses_ne_nil : s.bonuses ≠ some []
  listable : ∀ b ∈ s.bonusList, b.Listable
  overrides : ∀ b, s.overriding = some b → b.Overrides

theorem wellFormed_ofBase (base : Integer) : (ofBase base).WellFormed := ⟨nofun, nofun, nofun⟩

/-- A list that is never empty tells whether there are bonuses. -/
theorem hasBonuses_iff (h : s.WellFormed) :
    s.hasBonuses = true ↔ s.bonusList ≠ [] ∨ s.overriding ≠ none := by
  have hlist : s.bonuses.isSome = true ↔ s.bonusList ≠ [] := by
    have hne := h.bonuses_ne_nil
    unfold bonusList
    cases hbonuses : s.bonuses with
    | none => simp
    | some bonuses => simpa [hbonuses] using hne
  unfold hasBonuses
  rw [Bool.or_eq_true, hlist, Option.isSome_iff_ne_none]

theorem accepts_iff :
    accepts b = true ↔ b.name ≠ Bonus.wildcard ∧ b.type ≠ .empty ∧ b.value ≠ 0 := by
  simp [accepts, Bonus.isWildcard, and_assoc]

theorem wellFormed_add (h : s.WellFormed) (b : Bonus) : (s.add b).WellFormed := by
  unfold add
  split
  · exact h
  case isFalse hnot =>
    obtain ⟨hname, hempty, hvalue⟩ := accepts_iff.1 (by simpa using hnot)
    split
    case isTrue htype =>
      refine ⟨h.bonuses_ne_nil, h.listable, ?_⟩
      rintro _ ⟨⟩
      exact ⟨htype, hvalue, hname⟩
    case isFalse htype =>
      refine ⟨by simp, fun a ha => ?_, h.overrides⟩
      rcases List.mem_append.1 ha with ha | ha
      · exact h.listable a ha
      · rw [List.mem_singleton.1 ha]
        exact ⟨htype, hempty, hvalue, hname⟩

theorem bonusList_normalize (s : Stat) : s.normalize.bonusList = s.bonusList := by
  unfold normalize
  split
  case isTrue hnil => simp [bonusList, hnil]
  case isFalse => rfl

theorem bonuses_normalize_ne_nil (s : Stat) : s.normalize.bonuses ≠ some [] := by
  unfold normalize
  split
  · exact nofun
  case isFalse hne => exact hne

theorem overriding_normalize (s : Stat) : s.normalize.overriding = s.overriding := by
  unfold normalize
  split <;> rfl

theorem base_normalize (s : Stat) : s.normalize.base = s.base := by
  unfold normalize
  split <;> rfl

theorem normalize_of_ne_nil (h : s.bonuses ≠ some []) : s.normalize = s := if_neg h

/-- Stats that are normalized are the same if their bases, their bonuses and their overrides are. -/
theorem normalize_eq_iff {t : Stat} : s.normalize = t.normalize ↔
    s.base = t.base ∧ s.bonusList = t.bonusList ∧ s.overriding = t.overriding := by
  have hnormal : ∀ u : Stat, u.normalize =
      ⟨u.base, if u.bonusList = [] then none else some u.bonusList, u.overriding⟩ := by
    rintro ⟨base, bonuses, overriding⟩
    rcases bonuses with _ | _ | ⟨b, bs⟩ <;> rfl
  constructor
  · intro h
    refine ⟨?_, ?_, ?_⟩
    · rw [← base_normalize s, h, base_normalize]
    · rw [← bonusList_normalize s, h, bonusList_normalize]
    · rw [← overriding_normalize s, h, overriding_normalize]
  · rintro ⟨hbase, hlist, hoverriding⟩
    rw [hnormal s, hnormal t, hbase, hlist, hoverriding]

theorem bonuses_add_ne_nil (h : s.bonuses ≠ some []) (b : Bonus) :
    (s.add b).bonuses ≠ some [] := by
  unfold add
  split
  · exact h
  · split
    · exact h
    · simp

/-- Whatever is taken off, no empty list is left. -/
theorem bonuses_remove_ne_nil (s : Stat) (b : Bonus) : (s.remove b).bonuses ≠ some [] := by
  unfold remove
  split
  · split <;> exact bonuses_normalize_ne_nil _
  · exact bonuses_normalize_ne_nil _

theorem wellFormed_normalize (hlist : ∀ b ∈ s.bonusList, b.Listable)
    (hoverride : ∀ b, s.overriding = some b → b.Overrides) : s.normalize.WellFormed :=
  ⟨bonuses_normalize_ne_nil s, by rwa [bonusList_normalize], by rwa [overriding_normalize]⟩

theorem getD_map_filter (s : Stat) (p : Bonus → Bool) :
    (s.bonuses.map (·.filter p)).getD [] = s.bonusList.filter p := by
  unfold bonusList
  cases s.bonuses <;> rfl

/-- Bonuses that are kept can be where they were. -/
theorem listable_filter (h : s.WellFormed) (p : Bonus → Bool) :
    ∀ b ∈ (s.bonuses.map (·.filter p)).getD [], b.Listable := by
  rw [getD_map_filter]
  exact fun b hb => h.listable b (List.mem_filter.1 hb).1

theorem wellFormed_remove (h : s.WellFormed) (b : Bonus) : (s.remove b).WellFormed := by
  unfold remove
  split
  · split
    · exact wellFormed_normalize h.listable nofun
    · exact wellFormed_normalize (listable_filter h _) h.overrides
  · refine wellFormed_normalize (listable_filter h _) fun a ha => ?_
    exact h.overrides a (Option.filter_eq_some_iff.1 ha).1

theorem wellFormed_setBase (h : s.WellFormed) (base : Integer) : (s.setBase base).WellFormed :=
  ⟨h.bonuses_ne_nil, h.listable, h.overrides⟩

/-! ## Operations one after another -/

/-- Something that is done to a stat. -/
inductive Operation
  | add (b : Bonus)
  | remove (b : Bonus)
  | setBase (base : Integer)

def perform (s : Stat) : Operation → Stat
  | .add b => s.add b
  | .remove b => s.remove b
  | .setBase base => s.setBase base

/-- A stat that was made without bonuses, after some operations. -/
def after (base : Integer) (ops : List Operation) : Stat := ops.foldl perform (ofBase base)

namespace Operation

/-- What an operation puts at the end of the list: a bonus that is accepted and is no override. -/
def puts : Operation → List Bonus
  | add b => if accepts b && b.type != .override then [b] else []
  | _ => []

/-- Whether an operation takes a bonus off the list. The wildcard takes off all bonuses of its type,
any other bonus all that are equal to it. -/
def takes : Operation → Bonus → Bool
  | remove removed, b => if removed.isWildcard then b.type == removed.type else b == removed
  | _, _ => false

end Operation

/-- The bonuses that operations put on the list and that no later operation took off, in order. -/
def remaining : List Operation → List Bonus
  | [] => []
  | op :: later => (op.puts.filter fun b => !later.any (·.takes b)) ++ remaining later

theorem remaining_concat (ops : List Operation) (op : Operation) :
    remaining (ops ++ [op]) = (remaining ops).filter (fun b => !op.takes b) ++ op.puts := by
  induction ops with
  | nil => simp [remaining]
  | cons first ops ih =>
    -- what the first operation put on has to outlast one operation more
    have hfirst : (first.puts.filter fun b => !(ops ++ [op]).any (·.takes b)) =
        (first.puts.filter fun b => !ops.any (·.takes b)).filter fun b => !op.takes b := by
      rw [List.filter_filter]
      congr 1
      funext b
      simp [Bool.and_comm]
    rw [List.cons_append, remaining, remaining, hfirst, ih, List.filter_append, List.append_assoc]

theorem wellFormed_perform (h : s.WellFormed) (op : Operation) : (s.perform op).WellFormed := by
  cases op with
  | add b => exact wellFormed_add h b
  | remove b => exact wellFormed_remove h b
  | setBase base => exact wellFormed_setBase h base

theorem bonusList_add (s : Stat) (b : Bonus) :
    (s.add b).bonusList = s.bonusList ++ (Operation.add b).puts := by
  unfold add Operation.puts
  cases haccepts : accepts b with
  | false => simp [haccepts]
  | true =>
    by_cases htype : b.type = .override
    · simp [haccepts, htype, bonusList]
    · simp [haccepts, htype, bonusList]

/-- What is left of the list after a removal. Since no override is in the list, the wildcard for
overrides takes nothing off it either. -/
theorem bonusList_remove (h : s.WellFormed) (b : Bonus) :
    (s.remove b).bonusList = s.bonusList.filter fun a => !(Operation.remove b).takes a := by
  unfold remove Operation.takes
  split
  case isTrue hwild =>
    split
    case isTrue htype =>
      rw [bonusList_normalize, List.filter_eq_self.2]
      · rfl
      · intro a ha
        simp [hwild, htype, (h.listable a ha).type_ne_override]
    case isFalse =>
      rw [bonusList_normalize]
      exact (getD_map_filter s _).trans (by simp [hwild, bne])
  case isFalse hwild =>
    rw [bonusList_normalize]
    exact (getD_map_filter s _).trans (by simp [hwild, bne])

theorem bonusList_perform (h : s.WellFormed) (op : Operation) :
    (s.perform op).bonusList = (s.bonusList.filter fun b => !op.takes b) ++ op.puts := by
  cases op with
  | add b => simp [perform, bonusList_add, Operation.takes]
  | remove b => simp [perform, bonusList_remove h, Operation.puts]
  | setBase base => simp [perform, setBase, bonusList, Operation.takes, Operation.puts]

theorem after_concat (base : Integer) (ops : List Operation) (op : Operation) :
    after base (ops ++ [op]) = (after base ops).perform op := List.foldl_concat ..

theorem wellFormed_after (base : Integer) (ops : List Operation) : (after base ops).WellFormed := by
  induction ops using List.reverseRecOn with
  | nil => exact wellFormed_ofBase base
  | append_singleton ops op ih =>
    rw [after_concat]
    exact wellFormed_perform ih op

theorem bonusList_after (base : Integer) (ops : List Operation) :
    (after base ops).bonusList = remaining ops := by
  induction ops using List.reverseRecOn with
  | nil => rfl
  | append_singleton ops op ih =>
    rw [after_concat, bonusList_perform (wellFormed_after base ops), ih, remaining_concat]

/-! ## Removal by name -/

/-- The override has a name. -/
def OverriddenBy (s : Stat) (name : String) : Prop := ∃ o, s.overriding = some o ∧ o.name = name

/-- What remains of a list without the bonuses that are equal to one in name, type and value. -/
def without (b : Bonus) (bonuses : List Bonus) : List Bonus :=
  bonuses.filter fun a => !(a.name == b.name && a.type == b.type && a.value == b.value)

/-- A removal that stops at the override: an override with the name of the bonus is taken off and
the list is left alone, and only without such an override are bonuses taken off the list. It is
reported exactly if something is gone. -/
structure StopsAtOverride (s : Stat) (b : Bonus) (left : Stat) (reported : Bool) : Prop where
  named : s.OverriddenBy b.name → left.overriding = none ∧ left.bonusList = s.bonusList
  unnamed : ¬ s.OverriddenBy b.name →
    left.overriding = s.overriding ∧ left.bonusList = without b s.bonusList
  reported_iff : reported = true ↔ left.overriding ≠ s.overriding ∨ left.bonusList ≠ s.bonusList

theorem without_eq_filter (b : Bonus) (bonuses : List Bonus) :
    without b bonuses = bonuses.filter fun a => a != b := by
  refine List.filter_congr fun a _ => ?_
  rw [Bool.eq_iff_iff, Bool.not_eq_true', ← Bool.not_eq_true, bne_iff_ne, not_iff_not]
  cases a
  cases b
  simp [and_assoc]

theorem without_eq_self_iff {b : Bonus} {bonuses : List Bonus} :
    without b bonuses = bonuses ↔ b ∉ bonuses := by
  rw [without_eq_filter, List.filter_eq_self]
  simp only [bne_iff_ne]
  exact ⟨fun h hb => h b hb rfl, fun h a ha heq => h (heq ▸ ha)⟩

theorem keptOverride_of_overridden (h : s.OverriddenBy b.name) : s.keptOverride b = none := by
  obtain ⟨o, ho, hname⟩ := h
  rw [keptOverride, ho, Option.filter_some, if_neg]
  simp [hname]

theorem keptOverride_of_not_overridden (h : ¬ s.OverriddenBy b.name) :
    s.keptOverride b = s.overriding := by
  unfold keptOverride
  cases ho : s.overriding with
  | none => rfl
  | some o =>
    rw [Option.filter_some, if_pos]
    exact bne_iff_ne.2 fun hname => h ⟨o, ho, hname⟩

section

variable (hname : b.name ≠ Bonus.wildcard)

include hname

theorem not_isWildcard : ¬ b.isWildcard = true := by
  simpa [Bonus.isWildcard] using hname

theorem overriding_remove : (s.remove b).overriding = s.keptOverride b := by
  rw [remove, if_neg (not_isWildcard hname), overriding_normalize]

theorem bonusList_remove_of_name : (s.remove b).bonusList = without b s.bonusList := by
  rw [remove, if_neg (not_isWildcard hname), bonusList_normalize, without_eq_filter]
  exact getD_map_filter s _

theorem removes_iff : s.removes b = true ↔
    (s.remove b).overriding ≠ s.overriding ∨ (s.remove b).bonusList ≠ s.bonusList := by
  rw [overriding_remove hname, bonusList_remove_of_name hname, Ne, Ne, without_eq_self_iff, not_not,
    removes, if_neg (not_isWildcard hname), Bool.or_eq_true, bne_iff_ne, List.any_eq_true]
  simp

end

/-- A removal by name takes off the override with the name, and every bonus that is equal to the one
that is named; it leaves the base alone and never an empty list, and is reported exactly if
something is gone. It stops at the override, unless the override has the name and the list has the
bonus. -/
theorem removal_stops_at_override_iff (s : Stat) (b : Bonus) (hname : b.name ≠ Bonus.wildcard) :
    ((s.remove b).base = s.base ∧ (s.remove b).bonusList = without b s.bonusList ∧
      (s.OverriddenBy b.name → (s.remove b).overriding = none) ∧
      (¬ s.OverriddenBy b.name → (s.remove b).overriding = s.overriding) ∧
      (s.remove b).bonuses ≠ some [] ∧
      (s.removes b = true ↔
        (s.remove b).overriding ≠ s.overriding ∨ (s.remove b).bonusList ≠ s.bonusList)) ∧
    (s.StopsAtOverride b (s.remove b) (s.removes b) ↔
      ¬ (s.OverriddenBy b.name ∧ b ∈ s.bonusList)) := by
  have hoverriding := overriding_remove hname (s := s)
  have hlist := bonusList_remove_of_name hname (s := s)
  have hreported := removes_iff hname (s := s)
  refine ⟨⟨?_, hlist, ?_, ?_, ?_, hreported⟩, ?_⟩
  · rw [remove, if_neg (not_isWildcard hname), base_normalize]
  · exact fun h => hoverriding.trans (keptOverride_of_overridden h)
  · exact fun h => hoverriding.trans (keptOverride_of_not_overridden h)
  · rw [remove, if_neg (not_isWildcard hname)]
    exact bonuses_normalize_ne_nil _
  · constructor
    · rintro hstops ⟨hoverridden, hmem⟩
      have hleft := (hstops.named hoverridden).2
      rw [hlist, without_eq_self_iff] at hleft
      exact hleft hmem
    · intro hnot
      refine ⟨fun h => ⟨hoverriding.trans (keptOverride_of_overridden h), ?_⟩,
        fun h => ⟨hoverriding.trans (keptOverride_of_not_overridden h), hlist⟩, hreported⟩
      rw [hlist, without_eq_self_iff]
      exact fun hmem => hnot ⟨h, hmem⟩

/-- Of three bonuses under an override with another name, the two that are named are taken off. -/
theorem a_rage_is_taken_off_under_a_shape :
    let rage : Bonus := ⟨"rage", .morale, 2⟩
    let shape : Bonus := ⟨"wild shape", .override, 20⟩
    let s : Stat := ⟨10, some [rage, ⟨"rage", .morale, 3⟩, rage], some shape⟩
    s.remove rage = ⟨10, some [⟨"rage", .morale, 3⟩], some shape⟩ ∧ s.removes rage = true ∧
      s.StopsAtOverride rage (s.remove rage) (s.removes rage) := by
  intro rage shape s
  have hnot : ¬ s.OverriddenBy rage.name := by
    rintro ⟨o, ho, hname⟩
    cases ho
    exact absurd hname (by decide)
  obtain ⟨-, hstops⟩ := removal_stops_at_override_iff s rage (by decide)
  exact ⟨by decide, by decide, hstops.2 fun h => hnot h.1⟩

/-- Where the override has the name of a bonus in the list, a removal of that bonus takes off
both. -/
theorem a_rage_goes_with_its_override :
    let rage : Bonus := ⟨"rage", .morale, 2⟩
    let s : Stat := ⟨10, some [rage], some ⟨"rage", .override, 20⟩⟩
    rage.name ≠ Bonus.wildcard ∧ s.OverriddenBy rage.name ∧ s.bonusList = [rage] ∧
      s.remove rage = ⟨10, none, none⟩ ∧
      ¬ s.StopsAtOverride rage (s.remove rage) (s.removes rage) := by
  intro rage s
  have hoverridden : s.OverriddenBy rage.name := ⟨_, rfl, rfl⟩
  refine ⟨by decide, hoverridden, rfl, by decide, fun hstops => ?_⟩
  exact absurd (hstops.named hoverridden).2 (by decide)

end Stat

end DiceScript
