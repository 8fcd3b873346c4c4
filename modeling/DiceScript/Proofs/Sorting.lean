import DiceScript.Sorting
import Mathlib

/-!
Sorting, picking out and grouping: a sort moves elements until none stands in front of one that
precedes it and leaves all others in their order, of each key the first element is kept, and
elements are brought together by their keys.
-/

namespace DiceScript.Sorting

/-! ## Sorting -/

section

variable {α : Type} {precedes : α → α → Bool}

theorem settle_perm (precedes : α → α → Bool) (x : α) (ys : List α) :
    (settle precedes x ys).Perm (x :: ys) := by
  induction ys with
  | nil => exact .refl _
  | cons y ys ih =>
    unfold settle
    split
    · exact (ih.cons y).trans (.swap x y ys)
    · exact .refl _

/-- Sorting only moves elements. -/
theorem stable_perm (precedes : α → α → Bool) (xs : List α) :
    (stable precedes xs).Perm xs := by
  have hfold : ∀ (xs sorted : List α),
      (xs.foldl (fun sorted x => settle precedes x sorted) sorted).Perm (xs ++ sorted) := by
    intro xs
    induction xs with
    | nil => exact fun sorted => .refl _
    | cons x xs ih =>
      intro sorted
      exact (ih _).trans (((settle_perm precedes x sorted).append_left xs).trans List.perm_middle)
  have hxs := hfold xs []
  rw [List.append_nil] at hxs
  exact (List.reverse_perm _).trans hxs

theorem stable_concat (precedes : α → α → Bool) (xs : List α) (x : α) :
    stable precedes (xs ++ [x]) = (settle precedes x (stable precedes xs).reverse).reverse := by
  simp only [stable, List.foldl_concat, List.reverse_reverse]

/-- An element settles where none of those in front of it, which come after it in the end, is one
that it belongs behind. -/
theorem pairwise_settle {x : α} {ys : List α}
    (hasymm : ∀ y ∈ ys, precedes x y = true → precedes y x = false)
    (htrans : ∀ y ∈ ys, ∀ z ∈ ys, precedes x y = false → precedes y z = false →
      precedes x z = false)
    (hys : ys.Pairwise fun a b => precedes a b = false) :
    (settle precedes x ys).Pairwise fun a b => precedes a b = false := by
  induction ys with
  | nil => exact List.pairwise_singleton _ x
  | cons y ys ih =>
    obtain ⟨hy, hrest⟩ := List.pairwise_cons.1 hys
    unfold settle
    split
    case isTrue hx =>
      have hsettled : (settle precedes x ys).Pairwise fun a b => precedes a b = false :=
        ih (fun z hz => hasymm z (.tail y hz))
          (fun z hz w hw => htrans z (.tail y hz) w (.tail y hw)) hrest
      refine List.pairwise_cons.2 ⟨fun z hz => ?_, hsettled⟩
      rcases List.mem_cons.1 ((settle_perm precedes x ys).mem_iff.1 hz) with rfl | hz
      · exact hasymm y List.mem_cons_self hx
      · exact hy z hz
    case isFalse hx =>
      have hxy : precedes x y = false := Bool.eq_false_iff.2 hx
      refine List.pairwise_cons.2 ⟨fun z hz => ?_, hys⟩
      rcases List.mem_cons.1 hz with rfl | hz
      · exact hxy
      · exact htrans y List.mem_cons_self z (.tail y hz) hxy (hy z hz)

/-- In a sorted list no element precedes one in front of it. -/
theorem pairwise_stable {xs : List α}
    (hasymm : ∀ x ∈ xs, ∀ y ∈ xs, precedes x y = true → precedes y x = false)
    (htrans : ∀ x ∈ xs, ∀ y ∈ xs, ∀ z ∈ xs, precedes x y = false → precedes y z = false →
      precedes x z = false) :
    (stable precedes xs).Pairwise fun a b => precedes b a = false := by
  rw [← List.pairwise_reverse]
  induction xs using List.reverseRecOn with
  | nil => exact .nil
  | append_singleton xs x ih =>
    have hmem : ∀ y ∈ (stable precedes xs).reverse, y ∈ xs ++ [x] := fun y hy =>
      List.mem_append_left _ ((stable_perm precedes xs).mem_iff.1 (List.mem_reverse.1 hy))
    have hfront : ∀ y ∈ xs, y ∈ xs ++ [x] := fun y hy => List.mem_append_left _ hy
    have hx : x ∈ xs ++ [x] := List.mem_append_right _ List.mem_cons_self
    rw [stable_concat, List.reverse_reverse]
    apply pairwise_settle
    · exact fun y hy => hasymm x hx y (hmem y hy)
    · exact fun y hy z hz => htrans x hx y (hmem y hy) z (hmem z hz)
    · exact ih (fun y hy z hz => hasymm y (hfront y hy) z (hfront z hz))
        fun y hy z hz w hw => htrans y (hfront y hy) z (hfront z hz) w (hfront w hw)

/-- Elements of which none precedes another settle in front of each other. -/
theorem filter_settle {p : α → Bool} {x : α} {ys : List α}
    (h : ∀ y ∈ ys, p x = true → p y = true → precedes x y = false) :
    (settle precedes x ys).filter p = (x :: ys).filter p := by
  induction ys with
  | nil => rfl
  | cons y ys ih =>
    unfold settle
    split
    case isTrue hx =>
      rw [List.filter_cons, ih fun z hz => h z (.tail y hz)]
      -- `x` moves past `y`, so they are not both among those that are kept
      cases hpx : p x with
      | false => simp [List.filter_cons, hpx]
      | true =>
        cases hpy : p y with
        | false => simp [hpx, hpy]
        | true =>
          rw [h y List.mem_cons_self hpx hpy] at hx
          cases hx
    case isFalse => rfl

/-- A sort is stable: elements of which none precedes another keep their order. -/
theorem filter_stable {p : α → Bool} {xs : List α}
    (h : ∀ x ∈ xs, ∀ y ∈ xs, p x = true → p y = true → precedes x y = false) :
    (stable precedes xs).filter p = xs.filter p := by
  induction xs using List.reverseRecOn with
  | nil => rfl
  | append_singleton xs x ih =>
    have hx : ∀ y ∈ (stable precedes xs).reverse, p x = true → p y = true →
        precedes x y = false := by
      intro y hy
      have hmem : y ∈ xs := (stable_perm precedes xs).mem_iff.1 (List.mem_reverse.1 hy)
      exact h x (List.mem_append_right _ List.mem_cons_self) y (List.mem_append_left _ hmem)
    have hxs := ih fun y hy z hz => h y (List.mem_append_left _ hy) z (List.mem_append_left _ hz)
    rw [stable_concat, List.filter_reverse, filter_settle hx, ← List.filter_reverse,
      List.reverse_cons, List.reverse_reverse, List.filter_append, List.filter_append, hxs]

/-- A list is the only one with its elements in which no element precedes one in front of it and
elements of which neither precedes the other stand in their order. -/
theorem eq_of_pairwise_of_filter (hirrefl : ∀ x, precedes x x = false) {xs ys : List α}
    (hperm : xs.Perm ys) (hxs : xs.Pairwise fun a b => precedes b a = false)
    (hys : ys.Pairwise fun a b => precedes b a = false)
    (hties : ∀ x ∈ xs, xs.filter (fun y => !precedes x y && !precedes y x) =
      ys.filter fun y => !precedes x y && !precedes y x) : xs = ys := by
  induction xs generalizing ys with
  | nil => exact hperm.nil_eq
  | cons x xs ih =>
    cases ys with
    | nil => exact hperm.eq_nil
    | cons y ys =>
      obtain ⟨hx, hxrest⟩ := List.pairwise_cons.1 hxs
      obtain ⟨hy, hyrest⟩ := List.pairwise_cons.1 hys
      -- each of the two heads stands somewhere in the other list, so neither precedes the other
      have hxy : precedes x y = false := by
        rcases List.mem_cons.1 (hperm.mem_iff.1 List.mem_cons_self) with rfl | hmem
        · exact hirrefl x
        · exact hy x hmem
      have hyx : precedes y x = false := by
        rcases List.mem_cons.1 (hperm.mem_iff.2 List.mem_cons_self) with rfl | hmem
        · exact hirrefl y
        · exact hx y hmem
      have hheads := hties x List.mem_cons_self
      rw [List.filter_cons_of_pos (by simp [hirrefl]), List.filter_cons_of_pos (by simp [hxy, hyx])]
        at hheads
      obtain rfl : x = y := (List.cons.inj hheads).1
      rw [ih hperm.cons_inv hxrest hyrest]
      intro z hz
      have hz := hties z (.tail x hz)
      rw [List.filter_cons, List.filter_cons] at hz
      split at hz
      · exact (List.cons.inj hz).2
      · exact hz

end

/-! ## The first of each key -/

section

variable {α β : Type} [BEq β] (key : α → β)

theorem firstOfEach_concat (xs : List α) (x : α) :
    firstOfEach key (xs ++ [x]) =
      if (firstOfEach key xs).any (fun y => key y == key x) then firstOfEach key xs
      else firstOfEach key xs ++ [x] := List.foldl_concat ..

/-- The elements that are kept stay in order. -/
theorem firstOfEach_sublist (xs : List α) : (firstOfEach key xs).Sublist xs := by
  induction xs using List.reverseRecOn with
  | nil => exact .slnil
  | append_singleton xs x ih =>
    rw [firstOfEach_concat]
    split
    · exact ih.trans (List.sublist_append_left xs [x])
    · exact ih.append (List.Sublist.refl [x])

variable [LawfulBEq β]

/-- No key is lost. -/
theorem mem_map_firstOfEach (xs : List α) (k : β) :
    k ∈ (firstOfEach key xs).map key ↔ k ∈ xs.map key := by
  induction xs using List.reverseRecOn with
  | nil => rfl
  | append_singleton xs x ih =>
    rw [firstOfEach_concat, List.map_append, List.mem_append, ← ih]
    split
    case isTrue hany =>
      obtain ⟨y, hy, hkey⟩ := List.any_eq_true.1 hany
      have hmem : key x ∈ (firstOfEach key xs).map key :=
        eq_of_beq hkey ▸ List.mem_map_of_mem hy
      simp only [List.map_cons, List.map_nil, List.mem_singleton]
      exact ⟨Or.inl, fun h => h.elim id fun heq => heq ▸ hmem⟩
    case isFalse => rw [List.map_append, List.mem_append]

/-- Each key is kept once. -/
theorem nodup_map_firstOfEach (xs : List α) : ((firstOfEach key xs).map key).Nodup := by
  induction xs using List.reverseRecOn with
  | nil => exact .nil
  | append_singleton xs x ih =>
    rw [firstOfEach_concat]
    split
    · exact ih
    case isFalse hany =>
      rw [List.map_append, List.nodup_append]
      refine ⟨ih, List.nodup_singleton _, ?_⟩
      intro a ha b hb
      obtain ⟨y, hy, rfl⟩ := List.mem_map.1 ha
      rw [List.mem_singleton.1 hb]
      intro heq
      exact hany (List.any_eq_true.2 ⟨y, hy, beq_iff_eq.2 heq⟩)

/-- Where no element is related to one in front of it, the one that is kept of a key is related to
all with that key. -/
theorem rel_of_mem_firstOfEach {r : α → α → Prop} (hrefl : ∀ x, r x x) {xs : List α}
    (hxs : xs.Pairwise r) {x y : α} (hx : x ∈ firstOfEach key xs) (hy : y ∈ xs)
    (hkey : key y = key x) : r x y := by
  induction xs using List.reverseRecOn with
  | nil => cases hy
  | append_singleton xs z ih =>
    rw [firstOfEach_concat] at hx
    obtain ⟨hfront, -, hlast⟩ := List.pairwise_append.1 hxs
    have hkept : x ∈ firstOfEach key xs → r x y := by
      intro hx
      rcases List.mem_append.1 hy with hy | hy
      · exact ih hfront hx hy
      · exact hlast x ((firstOfEach_sublist key xs).subset hx) y hy
    split at hx
    · exact hkept hx
    case isFalse hnew =>
      rcases List.mem_append.1 hx with hx | hx
      · exact hkept hx
      -- the key of the last element is new, so no other element has it
      · obtain rfl := List.mem_singleton.1 hx
        rcases List.mem_append.1 hy with hy | hy
        · have hmem : key x ∈ (firstOfEach key xs).map key :=
            (mem_map_firstOfEach key xs _).2 (hkey ▸ List.mem_map_of_mem hy)
          obtain ⟨w, hw, hkeyw⟩ := List.mem_map.1 hmem
          exact (hnew (List.any_eq_true.2 ⟨w, hw, beq_iff_eq.2 hkeyw⟩)).elim
        · rw [List.mem_singleton.1 hy]
          exact hrefl x

end

/-! ## Grouping -/

/-- Elements that are brought together by their keys are the same elements. -/
theorem flatMap_filter_perm {α β : Type} [DecidableEq β] (key : α → β) {keys : List β}
    (hkeys : keys.Nodup) {xs : List α} (hxs : ∀ x ∈ xs, key x ∈ keys) :
    (keys.flatMap fun k => xs.filter fun x => key x = k).Perm xs := by
  induction keys generalizing xs with
  | nil =>
    rw [List.eq_nil_iff_forall_not_mem.2 fun x hx => List.not_mem_nil (hxs x hx)]
    exact .refl _
  | cons k ks ih =>
    obtain ⟨hk, hks⟩ := List.nodup_cons.1 hkeys
    -- the later groups are those of the elements that have another key
    have hlater : (ks.flatMap fun l => xs.filter fun x => key x = l) =
        ks.flatMap fun l => (xs.filter fun x => !decide (key x = k)).filter fun x => key x = l := by
      refine List.flatMap_congr fun l hl => ?_
      rw [List.filter_filter]
      refine List.filter_congr fun x _ => ?_
      have hne : l ≠ k := fun heq => hk (heq ▸ hl)
      by_cases hx : key x = l <;> simp [hx, hne]
    have hothers : ∀ x ∈ xs.filter fun x => !decide (key x = k), key x ∈ ks := by
      intro x hx
      obtain ⟨hmem, hne⟩ := List.mem_filter.1 hx
      rcases List.mem_cons.1 (hxs x hmem) with heq | hin
      · simp [heq] at hne
      · exact hin
    rw [List.flatMap_cons, hlater]
    exact ((ih hks hothers).append_left _).trans (List.filter_append_perm _ xs)

end DiceScript.Sorting
