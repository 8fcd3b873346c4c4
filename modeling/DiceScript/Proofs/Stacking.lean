import DiceScript.Proofs.Integer
import DiceScript.Proofs.Sorting
import DiceScript.Stat

/-!
What bonuses add up to. The rules of stacking are told on numbers without bounds and without any
order among the bonuses, and the totals that are computed, type by type and highest first, are held
against them.
-/

namespace DiceScript

namespace Stacking

/-! ## The rules -/

/-- The values of bonuses. -/
def values (bonuses : List Bonus) : List Int := bonuses.map fun b => b.value.toInt

/-- The highest of some numbers, or zero without one. -/
def highest (ns : List Int) : Int := ns.max?.getD 0

/-- For each name the highest value of the bonuses with that name, and the sum of those. -/
def sumOfHighest (bonuses : List Bonus) : Int :=
  ∑ name ∈ (bonuses.map Bonus.name).toFinset,
    highest (values (bonuses.filter fun b => b.name = name))

/-- What the bonuses of one type add. Of typeless, circumstance and dodge bonuses each name counts
once, penalties all count, and of any other type the highest one counts. -/
def share (bonuses : List Bonus) (t : BonusType) : Int :=
  let own := bonuses.filter fun b => b.type = t
  match t with
  | .typeless | .circumstance | .dodge => sumOfHighest own
  | .penalty => (values own).sum
  | _ => highest (values own)

/-- The total of bonuses: what the types that are among them add. -/
def exactTotal (bonuses : List Bonus) : Int :=
  ∑ t ∈ (bonuses.map Bonus.type).toFinset, share bonuses t

/-! ## The highest value -/

theorem highest_eq {ns : List Int} {n : Int} (hmem : n ∈ ns) (hle : ∀ m ∈ ns, m ≤ n) :
    highest ns = n := by
  rw [highest, List.max?_eq_some_iff.2 ⟨hmem, hle⟩, Option.getD_some]

theorem highest_perm {ns ms : List Int} (h : ns.Perm ms) : highest ns = highest ms := by
  cases hmax : ns.max? with
  | none =>
    obtain rfl := List.max?_eq_none_iff.1 hmax
    rw [h.nil_eq]
  | some n =>
    obtain ⟨hmem, hle⟩ := List.max?_eq_some_iff.1 hmax
    rw [highest_eq hmem hle]
    exact (highest_eq (h.mem_iff.1 hmem) fun m hm => hle m (h.mem_iff.2 hm)).symm

theorem values_perm {as bs : List Bonus} (h : as.Perm bs) : (values as).Perm (values bs) := h.map _

theorem sumOfHighest_perm {as bs : List Bonus} (h : as.Perm bs) :
    sumOfHighest as = sumOfHighest bs := by
  unfold sumOfHighest
  rw [List.toFinset_eq_of_perm _ _ (h.map Bonus.name)]
  exact Finset.sum_congr rfl fun name _ => highest_perm (values_perm (h.filter _))

/-! ## One type -/

/-- Bonuses in the order in which they are counted. -/
def Descending (bonuses : List Bonus) : Prop :=
  bonuses.Pairwise fun a b => b.value.toInt ≤ a.value.toInt

theorem group_perm (bonuses : List Bonus) (t : BonusType) :
    (group bonuses t).Perm (bonuses.filter fun b => b.type = t) := by
  have hfilter : (bonuses.filter fun b => b.type == t) = bonuses.filter fun b => b.type = t :=
    List.filter_congr fun b _ => beq_eq_decide ..
  rw [group, hfilter]
  exact Sorting.stable_perm _ _

theorem group_descending (bonuses : List Bonus) (t : BonusType) :
    Descending (group bonuses t) := by
  have hgroup : (group bonuses t).Pairwise fun a b => decide (a.value < b.value) = false := by
    apply Sorting.pairwise_stable
    · simp only [decide_eq_true_eq, decide_eq_false_iff_not, Int64.lt_iff_toInt_lt]
      intro a _ b _
      omega
    · simp only [decide_eq_false_iff_not, Int64.lt_iff_toInt_lt]
      intro a _ b _ c _
      omega
  refine hgroup.imp fun {a b} hab => ?_
  rw [decide_eq_false_iff_not, Int64.lt_iff_toInt_lt] at hab
  omega

/-- The bonus that is counted for a name has the highest value with that name. -/
theorem highest_of_firstOfEach {sorted : List Bonus} (h : Descending sorted) {b : Bonus}
    (hb : b ∈ Sorting.firstOfEach Bonus.name sorted) :
    highest (values (sorted.filter fun c => c.name = b.name)) = b.value.toInt := by
  have hmem : b ∈ sorted := (Sorting.firstOfEach_sublist _ _).subset hb
  refine highest_eq (List.mem_map_of_mem (List.mem_filter.2 ⟨hmem, by simp⟩)) ?_
  intro n hn
  obtain ⟨c, hc, rfl⟩ := List.mem_map.1 hn
  obtain ⟨hsorted, hname⟩ := List.mem_filter.1 hc
  exact Sorting.rel_of_mem_firstOfEach Bonus.name (fun c => le_refl c.value.toInt) h hb hsorted
    (of_decide_eq_true hname)

/-- The values that are counted by name, told from the names. -/
theorem values_firstOfEach {sorted : List Bonus} (h : Descending sorted) :
    values (Sorting.firstOfEach Bonus.name sorted) =
      ((Sorting.firstOfEach Bonus.name sorted).map Bonus.name).map fun name =>
        highest (values (sorted.filter fun c => c.name = name)) := by
  rw [List.map_map]
  exact List.map_congr_left fun b hb => (highest_of_firstOfEach h hb).symm

theorem sum_firstOfEach {sorted : List Bonus} (h : Descending sorted) :
    (values (Sorting.firstOfEach Bonus.name sorted)).sum = sumOfHighest sorted := by
  have hnames : ((Sorting.firstOfEach Bonus.name sorted).map Bonus.name).toFinset =
      (sorted.map Bonus.name).toFinset := by
    ext name
    rw [List.mem_toFinset, List.mem_toFinset, Sorting.mem_map_firstOfEach]
  rw [values_firstOfEach h, sumOfHighest, ← hnames,
    List.sum_toFinset _ (Sorting.nodup_map_firstOfEach _ _)]

theorem sum_take_one {sorted : List Bonus} (h : Descending sorted) :
    (values (sorted.take 1)).sum = highest (values sorted) := by
  cases sorted with
  | nil => rfl
  | cons b rest =>
    obtain ⟨hb, -⟩ := List.pairwise_cons.1 h
    have hhighest : highest (values (b :: rest)) = b.value.toInt := by
      refine highest_eq List.mem_cons_self fun n hn => ?_
      rcases List.mem_cons.1 hn with rfl | hn
      · exact le_refl _
      · obtain ⟨c, hc, rfl⟩ := List.mem_map.1 hn
        exact hb c hc
    rw [hhighest]
    simp [values]

/-- What is counted of a type is what the rules say. -/
theorem sum_counted (bonuses : List Bonus) (t : BonusType) :
    (values (counted t.stackingRule (group bonuses t))).sum = share bonuses t := by
  have hperm := group_perm bonuses t
  have hsorted := group_descending bonuses t
  cases t with
  | typeless | circumstance | dodge =>
    exact (sum_firstOfEach hsorted).trans (sumOfHighest_perm hperm)
  | penalty => exact (values_perm hperm).sum_eq
  | _ => exact (sum_take_one hsorted).trans (highest_perm (values_perm hperm))

/-! ## All types -/

/-- The types of bonuses, in the order in which they first appear. -/
def kinds (bonuses : List Bonus) : List BonusType :=
  Sorting.firstOfEach id (bonuses.map Bonus.type)

theorem nodup_kinds (bonuses : List Bonus) : (kinds bonuses).Nodup := by
  have hnodup := Sorting.nodup_map_firstOfEach id (bonuses.map Bonus.type)
  rwa [List.map_id] at hnodup

theorem mem_kinds (bonuses : List Bonus) (t : BonusType) :
    t ∈ kinds bonuses ↔ t ∈ bonuses.map Bonus.type := by
  have hmem := Sorting.mem_map_firstOfEach id (bonuses.map Bonus.type) t
  rwa [List.map_id, List.map_id] at hmem

/-- The amounts that bonuses of one type add up, highest first. -/
def ranked (bonuses : List Bonus) (t : BonusType) : List Integer :=
  (counted t.stackingRule (group bonuses t)).map Bonus.value

theorem amounts_eq (bonuses : List Bonus) :
    amounts bonuses = (kinds bonuses).flatMap (ranked bonuses) := rfl

theorem map_toInt_ranked (bonuses : List Bonus) (t : BonusType) :
    (ranked bonuses t).map Int64.toInt = values (counted t.stackingRule (group bonuses t)) :=
  List.map_map ..

theorem sum_ranked (bonuses : List Bonus) (t : BonusType) :
    ((ranked bonuses t).map Int64.toInt).sum = share bonuses t := by
  rw [map_toInt_ranked, sum_counted]

theorem sum_map_flatMap {α β : Type} (f : β → Int) (g : α → List β) (xs : List α) :
    ((xs.flatMap g).map f).sum = (xs.map fun x => ((g x).map f).sum).sum := by
  rw [List.map_flatMap, List.flatMap_def, List.sum_flatten, List.map_map]
  rfl

/-- Amounts of types add up to what the types add. -/
theorem sum_flatMap_ranked (bonuses : List Bonus) (order : List BonusType) :
    ((order.flatMap (ranked bonuses)).map Int64.toInt).sum = (order.map (share bonuses)).sum := by
  rw [sum_map_flatMap]
  exact congrArg List.sum (List.map_congr_left fun t _ => sum_ranked bonuses t)

theorem sum_amounts (bonuses : List Bonus) :
    ((amounts bonuses).map Int64.toInt).sum = exactTotal bonuses := by
  have hkinds : (kinds bonuses).toFinset = (bonuses.map Bonus.type).toFinset := by
    ext t
    rw [List.mem_toFinset, List.mem_toFinset, mem_kinds]
  rw [amounts_eq, sum_flatMap_ranked, exactTotal, ← hkinds,
    List.sum_toFinset _ (nodup_kinds bonuses)]

/-! ## Totals that fit -/

theorem total_of_total? {bonuses : List Bonus} {t : Integer} (h : total? bonuses = some t) :
    t.toInt = exactTotal bonuses ∧ total bonuses = t := by
  obtain ⟨hexact, hstopped⟩ := Integer.total_of_foldlM h
  rw [sum_amounts, Int64.toInt_zero, zero_add] at hexact
  exact ⟨hexact, hstopped⟩

theorem counted_sublist (rule : StackingRule) (sorted : List Bonus) :
    (counted rule sorted).Sublist sorted := by
  cases rule with
  | distinctNames => exact Sorting.firstOfEach_sublist _ _
  | always => exact List.Sublist.refl _
  | highestOnly => exact List.take_sublist 1 sorted

/-- A bonus counts at most once. -/
theorem sum_abs_amounts_le (bonuses : List Bonus) :
    ((amounts bonuses).map fun n => |n.toInt|).sum ≤ ((values bonuses).map abs).sum := by
  have hone : ∀ t, ((ranked bonuses t).map fun n => |n.toInt|).sum ≤
      ((bonuses.filter fun b => b.type = t).map fun b => |b.value.toInt|).sum := by
    intro t
    have hperm := (group_perm bonuses t).map fun b : Bonus => |b.value.toInt|
    rw [ranked, List.map_map, ← hperm.sum_eq]
    refine ((counted_sublist _ _).map _).sum_le_sum fun n hn => ?_
    obtain ⟨b, -, rfl⟩ := List.mem_map.1 hn
    exact abs_nonneg _
  have hall := (Sorting.flatMap_filter_perm Bonus.type (nodup_kinds bonuses)
    fun b hb => (mem_kinds bonuses b.type).2 (List.mem_map_of_mem hb)).map
      fun b : Bonus => |b.value.toInt|
  calc ((amounts bonuses).map fun n => |n.toInt|).sum
      = ((kinds bonuses).map fun t => ((ranked bonuses t).map fun n => |n.toInt|).sum).sum :=
        sum_map_flatMap ..
    _ ≤ ((kinds bonuses).map fun t =>
          ((bonuses.filter fun b => b.type = t).map fun b => |b.value.toInt|).sum).sum :=
        List.sum_le_sum fun t _ => hone t
    _ = (bonuses.map fun b => |b.value.toInt|).sum := by
        rw [← sum_map_flatMap, hall.sum_eq]
    _ = ((values bonuses).map abs).sum := by
        rw [values, List.map_map]
        rfl

/-- Bonuses whose values add up without their signs have a total. -/
theorem isSome_total? {bonuses : List Bonus}
    (h : ((values bonuses).map abs).sum ≤ Integer.greatest) : (total? bonuses).isSome := by
  rw [total?, Integer.isSome_foldlM_iff]
  intro front hfront
  have habs : |(front.map Int64.toInt).sum| ≤ (front.map fun n => |n.toInt|).sum := by
    have hsum :=
      Multiset.abs_sum_le_sum_abs (s := ((front.map Int64.toInt : List Int) : Multiset Int))
    rwa [Multiset.map_coe, Multiset.sum_coe, Multiset.sum_coe, List.map_map] at hsum
  have hfew : (front.map fun n => |n.toInt|).sum ≤
      ((amounts bonuses).map fun n => |n.toInt|).sum := by
    refine (hfront.sublist.map _).sum_le_sum fun n hn => ?_
    obtain ⟨m, -, rfl⟩ := List.mem_map.1 hn
    exact abs_nonneg _
  have hbound := (habs.trans hfew).trans ((sum_abs_amounts_le bonuses).trans h)
  rw [abs_le] at hbound
  rw [Int64.toInt_zero, zero_add]
  refine ⟨?_, hbound.2⟩
  have hleast : Integer.least = -Integer.greatest - 1 := by decide
  omega

end Stacking

namespace Stat

open Stacking

/-! ## Values of stats -/

theorem toInt_foldl_max (v : Integer) (vs : List Integer) :
    (vs.foldl max v).toInt = (vs.map Int64.toInt).foldl max v.toInt := by
  induction vs generalizing v with
  | nil => rfl
  | cons w vs ih => rw [List.foldl_cons, ih, Integer.toInt_max, List.map_cons, List.foldl_cons]

/-- The highest bonus of a type, where an override does not count as one. -/
theorem toInt_bonusOf {t : BonusType} (ht : t ≠ .override) (s : Stat) :
    (s.bonusOf t).toInt = highest (values (s.bonusList.filter fun b => b.type = t)) := by
  have hfilter : (s.bonusList.filter fun b => b.type == t) =
      s.bonusList.filter fun b => b.type = t :=
    List.filter_congr fun b _ => beq_eq_decide ..
  have hvalues : values (s.bonusList.filter fun b => b.type = t) =
      ((s.bonusList.filter fun b => b.type = t).map Bonus.value).map Int64.toInt := by
    rw [List.map_map]
    rfl
  rw [bonusOf, if_neg ht, hfilter, hvalues]
  cases (s.bonusList.filter fun b => b.type = t).map Bonus.value with
  | nil => rfl
  | cons v vs => exact toInt_foldl_max v vs

/-- A value that fits is not stopped. -/
theorem value_of_value? {s : Stat} {v : Integer} (h : s.value? = some v) : s.value = v := by
  unfold value? at h
  unfold value
  cases ho : s.overriding with
  | some b =>
    rw [ho] at h
    exact Option.some.inj h
  | none =>
    rw [ho] at h
    obtain ⟨t, ht, hadd⟩ := Option.bind_eq_some_iff.1 h
    have htotal : s.bonusTotal = t := (Stacking.total_of_total? ht).2
    dsimp only
    rw [htotal, Integer.addSaturating_of_add? hadd]

end Stat

namespace Stacking

/-- A total that fits at every step is the total of the rules, and is also the one that stops at the
ends of the range. Bonuses whose values add up without their signs have one. The value of a stat
that no override hides is its base and that total, and what a type of which only the highest counts
adds to it is the highest bonus of that type. -/
theorem totals_are_exact :
    (∀ (bonuses : List Bonus) (t : Integer), total? bonuses = some t →
      t.toInt = exactTotal bonuses ∧ total bonuses = t) ∧
    (∀ bonuses : List Bonus, ((values bonuses).map abs).sum ≤ Integer.greatest →
      (total? bonuses).isSome) ∧
    ∀ s : Stat,
      (s.overriding = none → ∀ v, s.value? = some v →
        v.toInt = s.base.toInt + exactTotal s.bonusList ∧ s.value = v) ∧
      ∀ t : BonusType, t.stackingRule = .highestOnly → t ≠ .override →
        share s.bonusList t = (s.bonusOf t).toInt := by
  refine ⟨fun bonuses t h => total_of_total? h, fun bonuses h => isSome_total? h, fun s => ⟨?_, ?_⟩⟩
  · intro hnone v hv
    rw [Stat.value?, hnone] at hv
    obtain ⟨t, ht, hadd⟩ := Option.bind_eq_some_iff.1 hv
    obtain ⟨hexact, hstopped⟩ := total_of_total? ht
    rw [Stat.value, hnone]
    refine ⟨?_, ?_⟩
    · rw [Integer.add?_eq_some_iff.1 hadd, hexact]
    · rw [Stat.bonusTotal, hstopped]
      exact Integer.addSaturating_of_add? hadd
  · intro t hrule ht
    rw [Stat.toInt_bonusOf ht]
    cases t <;> first | rfl | cases hrule

/-- Bonuses of every rule, with a name that is there twice and one of negative value. -/
def heroic : List Bonus := [⟨"bless", .typeless, 1⟩, ⟨"rage", .morale, 2⟩, ⟨"bless", .typeless, 3⟩,
  ⟨"tired", .penalty, -2⟩, ⟨"flank", .typeless, 2⟩, ⟨"heroism", .morale, 4⟩, ⟨"omen", .luck, -1⟩,
  ⟨"tired", .penalty, -2⟩]

/-- They come to 3 + 2 - 4 + 4 - 1. -/
theorem heroic_bonuses_add_four :
    ((4 : Integer).toInt = exactTotal heroic ∧ total heroic = 4) ∧ (total? heroic).isSome ∧
      ((14 : Integer).toInt = (10 : Integer).toInt + exactTotal heroic ∧
        (Stat.mk 10 (some heroic) none).value = 14) ∧
      share heroic .morale = ((Stat.mk 10 (some heroic) none).bonusOf .morale).toInt := by
  obtain ⟨hexact, htotal, hstat⟩ := totals_are_exact
  obtain ⟨hvalue, hhighest⟩ := hstat (Stat.mk 10 (some heroic) none)
  exact ⟨hexact heroic 4 (by decide +kernel), htotal heroic (by decide +kernel),
    hvalue rfl 14 (by decide +kernel), hhighest .morale rfl (by decide)⟩

end Stacking

end DiceScript
