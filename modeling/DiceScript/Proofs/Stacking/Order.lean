import DiceScript.Proofs.Stacking

/-!
The order of bonuses. Only the order in which the types first appear matters for a total, since the
bonuses of one type are counted highest first. It matters where a partial sum between two types can
leave the range of integers: then one order has a total and another has none, or stops elsewhere.
-/

namespace DiceScript.Stacking

/-! ## Totals along an order of types -/

/-- The total of bonuses, if their types are counted in an order and every partial sum fits. -/
def totalAlong? (bonuses : List Bonus) (order : List BonusType) : Option Integer :=
  (order.flatMap (ranked bonuses)).foldlM Integer.add? 0

/-- The total of bonuses, if their types are counted in an order and sums stop at the ends of the
range. -/
def totalAlong (bonuses : List Bonus) (order : List BonusType) : Integer :=
  (order.flatMap (ranked bonuses)).foldl Integer.addSaturating 0

/-- What the amounts of a type that are above zero add up to. They are counted before the others. -/
def rise (bonuses : List Bonus) (t : BonusType) : Int :=
  (((ranked bonuses t).map Int64.toInt).filter fun n => 0 < n).sum

/-- No order of the types has a partial sum that leaves the range. It could be left upward amid the
amounts of a type that follows all other types that add something, and downward behind all types
that take something away. -/
structure Steady (bonuses : List Bonus) : Prop where
  above : ∀ t ∈ kinds bonuses,
    rise bonuses t + (((kinds bonuses).erase t).map fun u => max 0 (share bonuses u)).sum ≤
      Integer.greatest
  below : Integer.least ≤ ((kinds bonuses).map fun t => min 0 (share bonuses t)).sum

/-! ## Bonuses in another order -/

theorem values_eq_of_perm {as bs : List Bonus} (ha : Descending as) (hb : Descending bs)
    (h : (values as).Perm (values bs)) : values as = values bs := by
  have hdescending : ∀ {cs : List Bonus}, Descending cs →
      (values cs).Pairwise fun m n => n ≤ m := fun hcs => List.pairwise_map.2 hcs
  exact h.eq_of_pairwise (fun m n _ _ hmn hnm => le_antisymm hnm hmn) (hdescending ha)
    (hdescending hb)

theorem counted_descending {sorted : List Bonus} (h : Descending sorted) (rule : StackingRule) :
    Descending (counted rule sorted) := h.sublist (counted_sublist rule sorted)

/-- The same names have the same highest values. -/
theorem values_firstOfEach_perm {as bs : List Bonus} (ha : Descending as) (hb : Descending bs)
    (h : as.Perm bs) : (values (Sorting.firstOfEach Bonus.name as)).Perm
      (values (Sorting.firstOfEach Bonus.name bs)) := by
  have hnames : ((Sorting.firstOfEach Bonus.name as).map Bonus.name).Perm
      ((Sorting.firstOfEach Bonus.name bs).map Bonus.name) := by
    rw [List.perm_ext_iff_of_nodup (Sorting.nodup_map_firstOfEach _ _)
      (Sorting.nodup_map_firstOfEach _ _)]
    intro name
    rw [Sorting.mem_map_firstOfEach, Sorting.mem_map_firstOfEach, (h.map Bonus.name).mem_iff]
  have hhighest : (fun name => highest (values (as.filter fun c => c.name = name))) =
      fun name => highest (values (bs.filter fun c => c.name = name)) :=
    funext fun name => highest_perm (values_perm (h.filter _))
  rw [values_firstOfEach ha, values_firstOfEach hb, hhighest]
  exact hnames.map _

theorem values_counted_eq {as bs : List Bonus} (ha : Descending as) (hb : Descending bs)
    (h : as.Perm bs) (rule : StackingRule) :
    values (counted rule as) = values (counted rule bs) := by
  have hall := values_eq_of_perm ha hb (values_perm h)
  cases rule with
  | distinctNames =>
    exact values_eq_of_perm (counted_descending ha .distinctNames)
      (counted_descending hb .distinctNames) (values_firstOfEach_perm ha hb h)
  | always => exact hall
  | highestOnly =>
    have htake : ∀ cs : List Bonus, values (cs.take 1) = (values cs).take 1 :=
      fun cs => List.map_take ..
    exact (htake as).trans ((congrArg (List.take 1) hall).trans (htake bs).symm)

/-- The amounts of one type do not depend on the order of the bonuses. -/
theorem ranked_perm {as bs : List Bonus} (h : as.Perm bs) : ranked as = ranked bs := by
  funext t
  have hgroups := (group_perm as t).trans ((h.filter _).trans (group_perm bs t).symm)
  refine List.map_injective_iff.2 (fun m n => Int64.toInt_inj.1) ?_
  rw [map_toInt_ranked, map_toInt_ranked]
  exact values_counted_eq (group_descending as t) (group_descending bs t) hgroups t.stackingRule

theorem kinds_perm {as bs : List Bonus} (h : as.Perm bs) : (kinds as).Perm (kinds bs) := by
  rw [List.perm_ext_iff_of_nodup (nodup_kinds as) (nodup_kinds bs)]
  intro t
  rw [mem_kinds, mem_kinds, (h.map Bonus.type).mem_iff]

theorem exactTotal_perm {as bs : List Bonus} (h : as.Perm bs) : exactTotal as = exactTotal bs := by
  rw [← sum_amounts, ← sum_amounts, amounts_eq, amounts_eq, ranked_perm h]
  exact (((kinds_perm h).flatMap_right _).map _).sum_eq

theorem total?_perm {as bs : List Bonus} (h : as.Perm bs) :
    total? as = totalAlong? bs (kinds as) := by
  rw [total?, amounts_eq, ranked_perm h, totalAlong?]

theorem total_perm {as bs : List Bonus} (h : as.Perm bs) :
    total as = totalAlong bs (kinds as) := by
  rw [total, amounts_eq, ranked_perm h, totalAlong]

/-! ## Every order of the types -/

theorem firstOfEach_append_replicate (ts : List BonusType) {t : BonusType} (ht : t ∉ ts) (n : Nat) :
    Sorting.firstOfEach id (ts ++ List.replicate (n + 1) t) = Sorting.firstOfEach id ts ++ [t] := by
  induction n with
  | zero =>
    rw [List.replicate_one, Sorting.firstOfEach_concat, if_neg]
    intro hany
    obtain ⟨u, hu, heq⟩ := List.any_eq_true.1 hany
    obtain rfl : u = t := eq_of_beq heq
    exact ht ((Sorting.firstOfEach_sublist id ts).subset hu)
  | succ n ih =>
    rw [List.replicate_succ', ← List.append_assoc, Sorting.firstOfEach_concat, ih, if_pos]
    simp

/-- Groups that are put one after another appear in that order. -/
theorem firstOfEach_groups {order : List BonusType} (horder : order.Nodup)
    (size : BonusType → Nat) :
    Sorting.firstOfEach id (order.flatMap fun t => List.replicate (size t + 1) t) = order := by
  induction order using List.reverseRecOn with
  | nil => rfl
  | append_singleton order t ih =>
    obtain ⟨hfront, -, hnew⟩ := List.nodup_append.1 horder
    rw [List.flatMap_append, List.flatMap_singleton, firstOfEach_append_replicate, ih hfront]
    intro ht
    obtain ⟨u, hu, hmem⟩ := List.mem_flatMap.1 ht
    exact hnew u hu t (List.mem_singleton_self t) (List.eq_of_mem_replicate hmem).symm

/-- Every order of the types is the one in which the types of the bonuses in some order appear. -/
theorem exists_perm_kinds {bonuses : List Bonus} {order : List BonusType}
    (h : order.Perm (kinds bonuses)) : ∃ as, as.Perm bonuses ∧ kinds as = order := by
  have hnodup : order.Nodup := h.nodup_iff.2 (nodup_kinds bonuses)
  have hmem : ∀ t, t ∈ order ↔ t ∈ bonuses.map Bonus.type :=
    fun t => h.mem_iff.trans (mem_kinds bonuses t)
  refine ⟨order.flatMap fun t => bonuses.filter fun b => b.type = t,
    Sorting.flatMap_filter_perm Bonus.type hnodup fun b hb =>
      (hmem _).2 (List.mem_map_of_mem hb), ?_⟩
  -- the types of a group are the type of the group, as often as the group is long
  have hgroup : ∀ t ∈ order, (bonuses.filter fun b => b.type = t).map Bonus.type =
      List.replicate ((bonuses.filter fun b => b.type = t).length - 1 + 1) t := by
    intro t ht
    obtain ⟨b, hb, htype⟩ := List.mem_map.1 ((hmem t).1 ht)
    have hpos : 0 < (bonuses.filter fun b => b.type = t).length :=
      List.length_pos_of_mem (List.mem_filter.2 ⟨hb, decide_eq_true htype⟩)
    rw [Nat.sub_add_cancel hpos, List.eq_replicate_iff, List.length_map]
    refine ⟨rfl, fun u hu => ?_⟩
    obtain ⟨c, hc, rfl⟩ := List.mem_map.1 hu
    exact of_decide_eq_true (List.mem_filter.1 hc).2
  rw [kinds, List.map_flatMap, List.flatMap_congr hgroup]
  exact firstOfEach_groups hnodup _

/-! ## Partial sums -/

/-- What is in front in groups that are put one after another: nothing, or whole groups and the
front of the next one. -/
theorem prefix_flatMap {α β : Type} {f : α → List β} {front : List β} {xs : List α}
    (h : front <+: xs.flatMap f) :
    front = [] ∨ ∃ before x after part, xs = before ++ x :: after ∧ part <+: f x ∧
      front = before.flatMap f ++ part := by
  induction xs generalizing front with
  | nil => exact .inl (List.prefix_nil.1 h)
  | cons x xs ih =>
    rw [List.flatMap_cons] at h
    rcases List.prefix_or_prefix_of_prefix h (List.prefix_append (f x) _) with hpart | hwhole
    · exact .inr ⟨[], x, xs, front, rfl, hpart, rfl⟩
    · obtain ⟨later, rfl⟩ := hwhole
      rcases ih ((List.prefix_append_right_inj (f x)).1 h) with rfl | ⟨before, y, after, part, rfl,
        hpart, rfl⟩
      · exact .inr ⟨[], x, xs, f x, rfl, List.prefix_refl _, by simp⟩
      · exact .inr ⟨x :: before, y, after, part, rfl, hpart, by
          rw [List.flatMap_cons, List.append_assoc]⟩

theorem sum_le_sum_filter_pos (ns : List Int) : ns.sum ≤ (ns.filter fun n => 0 < n).sum := by
  induction ns with
  | nil => exact le_refl _
  | cons n ns ih =>
    rw [List.filter_cons]
    split
    · simpa using ih
    case isFalse h =>
      rw [decide_eq_true_eq] at h
      rw [List.sum_cons]
      omega

/-- The sum in front in a descending list is not below both zero and the whole sum. -/
theorem min_le_sum_prefix {ns part : List Int} (hns : ns.Pairwise fun m n => n ≤ m)
    (h : part <+: ns) : min 0 ns.sum ≤ part.sum := by
  obtain ⟨rest, rfl⟩ := h
  obtain ⟨-, -, hle⟩ := List.pairwise_append.1 hns
  rw [List.sum_append]
  by_cases hneg : ∃ n ∈ part, n < 0
  · obtain ⟨n, hn, hlt⟩ := hneg
    have hnone : (rest.filter fun m => 0 < m) = [] := by
      rw [List.filter_eq_nil_iff]
      intro m hm hpos
      rw [decide_eq_true_eq] at hpos
      have := hle n hn m hm
      omega
    have hrest := sum_le_sum_filter_pos rest
    rw [hnone, List.sum_nil] at hrest
    omega
  · have hpart : 0 ≤ part.sum := List.sum_nonneg fun n hn => by
      by_contra hlt
      exact hneg ⟨n, hn, not_le.1 hlt⟩
    omega

/-- In a descending list the numbers above zero stand in front. -/
theorem filter_pos_prefix {ns : List Int} (hns : ns.Pairwise fun m n => n ≤ m) :
    (ns.filter fun n => 0 < n) <+: ns := by
  induction ns with
  | nil => exact List.prefix_refl _
  | cons n ns ih =>
    obtain ⟨hle, hrest⟩ := List.pairwise_cons.1 hns
    rw [List.filter_cons]
    split
    · exact (List.prefix_cons_inj n).2 (ih hrest)
    case isFalse h =>
      rw [decide_eq_true_eq] at h
      rw [List.filter_eq_nil_iff.2]
      · exact List.nil_prefix
      · intro m hm hpos
        rw [decide_eq_true_eq] at hpos
        have := hle m hm
        omega

theorem ranked_descending (bonuses : List Bonus) (t : BonusType) :
    ((ranked bonuses t).map Int64.toInt).Pairwise fun m n => n ≤ m := by
  rw [map_toInt_ranked]
  exact List.pairwise_map.2 (counted_descending (group_descending bonuses t) _)

/-- The amounts above zero are the front of those of a type. -/
theorem exists_prefix_rise (bonuses : List Bonus) (t : BonusType) :
    ∃ part, part <+: ranked bonuses t ∧ (part.map Int64.toInt).sum = rise bonuses t := by
  have hpos := filter_pos_prefix (ranked_descending bonuses t)
  rw [List.prefix_iff_eq_take, ← List.map_take] at hpos
  exact ⟨_, List.take_prefix _ _, congrArg List.sum hpos.symm⟩

theorem sum_map_filter {α : Type} (p : α → Bool) (f : α → Int) (xs : List α) :
    ((xs.filter p).map f).sum = (xs.map fun x => if p x then f x else 0).sum := by
  induction xs with
  | nil => rfl
  | cons x xs ih =>
    rw [List.filter_cons, List.map_cons, List.sum_cons, ← ih]
    split
    · rw [List.map_cons, List.sum_cons]
    · rw [zero_add]

/-! ## Steady totals -/

section

variable {bonuses : List Bonus}

theorem fits_of_steady (h : Steady bonuses) {before after : List BonusType} {t : BonusType}
    (horder : (before ++ t :: after).Perm (kinds bonuses)) {part : List Integer}
    (hpart : part <+: ranked bonuses t) :
    Integer.Fits ((before.map (share bonuses)).sum + (part.map Int64.toInt).sum) := by
  have ht : t ∈ kinds bonuses := horder.mem_iff.1 (by simp)
  have hnumbers : part.map Int64.toInt <+: (ranked bonuses t).map Int64.toInt := hpart.map _
  constructor
  · -- what is counted before takes away no more than all, and the front of a type no more than it
    have hbelow := h.below
    rw [← (horder.map fun u => min 0 (share bonuses u)).sum_eq, List.map_append, List.map_cons,
      List.sum_append, List.sum_cons] at hbelow
    have hbefore : (before.map fun u => min 0 (share bonuses u)).sum ≤
        (before.map (share bonuses)).sum := List.sum_le_sum fun u _ => min_le_right _ _
    have hafter : (after.map fun u => min 0 (share bonuses u)).sum ≤ (after.map fun _ => 0).sum :=
      List.sum_le_sum fun u _ => min_le_left _ _
    have hfront := min_le_sum_prefix (ranked_descending bonuses t) hnumbers
    rw [sum_ranked] at hfront
    rw [List.sum_map_zero] at hafter
    omega
  · -- what is counted before adds no more than all other types, and the front of a type no more
    -- than its amounts above zero
    have hothers : (before ++ after).Perm ((kinds bonuses).erase t) :=
      List.Perm.cons_inv ((List.perm_middle.symm.trans horder).trans (List.perm_cons_erase ht))
    have habove := h.above t ht
    rw [← (hothers.map fun u => max 0 (share bonuses u)).sum_eq, List.map_append,
      List.sum_append] at habove
    have hbefore : (before.map (share bonuses)).sum ≤
        (before.map fun u => max 0 (share bonuses u)).sum :=
      List.sum_le_sum fun u _ => le_max_right _ _
    have hafter : 0 ≤ (after.map fun u => max 0 (share bonuses u)).sum := by
      refine List.sum_nonneg fun n hn => ?_
      obtain ⟨u, -, rfl⟩ := List.mem_map.1 hn
      exact le_max_left _ _
    have hfront := sum_le_sum_filter_pos (part.map Int64.toInt)
    have hrise : ((part.map Int64.toInt).filter fun n => 0 < n).sum ≤ rise bonuses t := by
      refine (hnumbers.sublist.filter _).sum_le_sum fun n hn => ?_
      exact (of_decide_eq_true (List.mem_filter.1 hn).2).le
    omega

/-- Where there is a total, what is in front of some types fits, and so does the front of those
types. -/
theorem fits_of_isSome {before after : List BonusType} {part : List Integer}
    (h : (totalAlong? bonuses (before ++ after)).isSome)
    (hpart : part <+: after.flatMap (ranked bonuses)) :
    Integer.Fits ((before.map (share bonuses)).sum + (part.map Int64.toInt).sum) := by
  rw [totalAlong?, Integer.isSome_foldlM_iff, Int64.toInt_zero, List.flatMap_append] at h
  have hfront := h (before.flatMap (ranked bonuses) ++ part)
    ((List.prefix_append_right_inj _).2 hpart)
  rwa [zero_add, List.map_append, List.sum_append, sum_flatMap_ranked] at hfront

/-- Bonuses are steady exactly if they have a total along every order of the types. -/
theorem steady_iff : Steady bonuses ↔
    ∀ order, order.Perm (kinds bonuses) → (totalAlong? bonuses order).isSome := by
  constructor
  · intro h order horder
    rw [totalAlong?, Integer.isSome_foldlM_iff, Int64.toInt_zero]
    intro front hfront
    rw [zero_add]
    rcases prefix_flatMap hfront with rfl | ⟨before, t, after, part, rfl, hpart, rfl⟩
    · exact Integer.fits_toInt 0
    · rw [List.map_append, List.sum_append, sum_flatMap_ranked]
      exact fits_of_steady h horder hpart
  · intro h
    constructor
    -- the types that add something come first, and then this one as far as it adds something
    · intro t ht
      let others := (kinds bonuses).erase t
      let adding := others.filter fun u => 0 < share bonuses u
      let rest := others.filter fun u => !decide (0 < share bonuses u)
      have horder : (adding ++ t :: rest).Perm (kinds bonuses) :=
        (List.perm_middle.trans ((List.filter_append_perm _ others).cons t)).trans
          (List.perm_cons_erase ht).symm
      obtain ⟨part, hpart, hrise⟩ := exists_prefix_rise bonuses t
      have hfits := fits_of_isSome (h _ horder) (hpart.trans (List.prefix_append _ _))
      rw [hrise, sum_map_filter] at hfits
      have hmax : (others.map fun u => if 0 < share bonuses u then share bonuses u else 0) =
          others.map fun u => max 0 (share bonuses u) :=
        List.map_congr_left fun u _ => by split <;> omega
      simp only [decide_eq_true_eq, hmax] at hfits
      exact (add_comm _ _).trans_le hfits.2
    -- the types that take something away come first
    · have horder := List.filter_append_perm (fun t => decide (share bonuses t < 0)) (kinds bonuses)
      have hfits := fits_of_isSome (h _ horder) List.nil_prefix
      have hmin :
          ((kinds bonuses).map fun t => if share bonuses t < 0 then share bonuses t else 0) =
          (kinds bonuses).map fun t => min 0 (share bonuses t) :=
        List.map_congr_left fun t _ => by split <;> omega
      rw [List.map_nil, List.sum_nil, add_zero, sum_map_filter] at hfits
      simp only [decide_eq_true_eq, hmin] at hfits
      exact hfits.1

/-! ## The order matters only between types -/

/-- Bonuses in another order have the totals that they have along the order of types in which they
then appear, and a total that fits is the same in all orders. All orders have the same totals
exactly if no order of the types has a partial sum that leaves the range, or else along no order of
the types there is a total that fits and along all of them the sum that is stopped comes to the
same. -/
theorem only_the_order_of_types_matters (bonuses : List Bonus) :
    (∀ others : List Bonus, others.Perm bonuses →
      total? others = totalAlong? bonuses (kinds others) ∧
      total others = totalAlong bonuses (kinds others) ∧
      ∀ t, total? others = some t → t.toInt = exactTotal bonuses) ∧
    ((∀ others : List Bonus, others.Perm bonuses →
        total? others = total? bonuses ∧ total others = total bonuses) ↔
      Steady bonuses ∨ ∀ order : List BonusType, order.Perm (kinds bonuses) →
        totalAlong? bonuses order = none ∧ totalAlong bonuses order = total bonuses) := by
  constructor
  · intro others hothers
    refine ⟨total?_perm hothers, total_perm hothers, fun t ht => ?_⟩
    rw [(total_of_total? ht).1, exactTotal_perm hothers]
  constructor
  · intro h
    -- along any order of the types the totals are those of the bonuses in some order
    have hsame : ∀ order, order.Perm (kinds bonuses) →
        totalAlong? bonuses order = total? bonuses ∧ totalAlong bonuses order = total bonuses := by
      intro order horder
      obtain ⟨others, hothers, rfl⟩ := exists_perm_kinds horder
      rw [← total?_perm hothers, ← total_perm hothers]
      exact h others hothers
    cases htotal : total? bonuses with
    | none =>
      rw [htotal] at hsame
      exact .inr hsame
    | some t =>
      refine .inl (steady_iff.2 fun order horder => ?_)
      rw [(hsame order horder).1, htotal]
      rfl
  · rintro (hsteady | hnever) others hothers
    · obtain ⟨t, ht⟩ := Option.isSome_iff_exists.1 (steady_iff.1 hsteady _ (.refl _))
      obtain ⟨u, hu⟩ := Option.isSome_iff_exists.1
        (steady_iff.1 hsteady _ (kinds_perm hothers))
      rw [← total?_perm (.refl bonuses)] at ht
      rw [← total?_perm hothers] at hu
      obtain ⟨hexact, hstopped⟩ := total_of_total? ht
      obtain ⟨hexact', hstopped'⟩ := total_of_total? hu
      obtain rfl : u = t := Int64.toInt_inj.1 (by rw [hexact, hexact', exactTotal_perm hothers])
      rw [ht, hu, hstopped, hstopped']
      exact ⟨rfl, rfl⟩
    · have hnone := (hnever _ (.refl _)).1
      rw [← total?_perm (.refl bonuses)] at hnone
      obtain ⟨hnone', hstopped⟩ := hnever _ (kinds_perm hothers)
      rw [total?_perm hothers, total_perm hothers, hnone, hnone', hstopped]
      exact ⟨rfl, rfl⟩

/-- Bonuses far from the ends of the range have one total in every order. -/
theorem heroic_bonuses_add_four_in_every_order :
    Steady heroic ∧ ∀ others : List Bonus, others.Perm heroic →
      total? others = some 4 ∧ total others = 4 := by
  have hsteady : Steady heroic := ⟨by decide +kernel, by decide +kernel⟩
  have hsome : total? heroic = some 4 := by decide +kernel
  have hstopped : total heroic = 4 := by decide +kernel
  refine ⟨hsteady, fun others hothers => ?_⟩
  obtain ⟨htotal?, htotal⟩ :=
    (only_the_order_of_types_matters heroic).2.2 (.inl hsteady) others hothers
  exact ⟨htotal?.trans hsome, htotal.trans hstopped⟩

/-- The greatest luck, some morale and a penalty. -/
def lucky : List Bonus :=
  [⟨"clover", .luck, Int64.maxValue⟩, ⟨"rage", .morale, 1⟩, ⟨"tired", .penalty, -1⟩]

/-- With the penalty in the middle the bonuses have a total, and with the penalty at the end they
have none, and stop at another integer. -/
theorem a_penalty_at_the_end_comes_too_late :
    let others : List Bonus :=
      [⟨"clover", .luck, Int64.maxValue⟩, ⟨"tired", .penalty, -1⟩, ⟨"rage", .morale, 1⟩]
    others.Perm lucky ∧
      total? lucky = none ∧ total? others = some Int64.maxValue ∧
      total lucky = Int64.maxValue - 1 ∧ total others = Int64.maxValue := by
  decide +kernel

end

end DiceScript.Stacking
