import DiceScript.Integer
import Mathlib

/-!
Integers of scripts as numbers without bounds: the numbers that fit, a count that stops at the
greatest integer, the integers next to one that is not the last, the lesser and the greater of two,
and sums.
-/

namespace DiceScript.Integer

/-! ## Numbers that fit -/

/-- The number is one that an integer of a script can have. -/
def Fits (n : Int) : Prop := least ≤ n ∧ n ≤ greatest

theorem ofInt?_of_fits {n : Int} (h : Fits n) : ∃ r : Integer, ofInt? n = some r ∧ r.toInt = n := by
  obtain ⟨hleast, hgreatest⟩ := h
  refine ⟨Int64.ofInt n, if_pos ⟨hleast, hgreatest⟩, Int64.toInt_ofInt_of_le hleast ?_⟩
  unfold greatest at hgreatest
  omega

theorem ofInt?_of_not_fits {n : Int} (h : ¬Fits n) : ofInt? n = none := if_neg h

theorem ne_zero_iff (n : Integer) : n ≠ 0 ↔ n.toInt ≠ 0 := by
  rw [← Int64.toInt_zero, not_iff_not, Int64.toInt_inj]

theorem ofInt?_toInt (n : Integer) : ofInt? n.toInt = some n := by
  have hleast := Int64.le_toInt n
  have hgreatest := Int64.toInt_lt n
  rw [ofInt?, if_pos ⟨hleast, by unfold greatest; omega⟩, Int64.ofInt_toInt]

theorem toInt_le_greatest (n : Integer) : n.toInt ≤ greatest := by
  have hn := Int64.toInt_lt n
  unfold greatest
  omega

theorem fits_toInt (n : Integer) : Fits n.toInt := ⟨Int64.le_toInt n, toInt_le_greatest n⟩

theorem toInt_ofSize (n : Nat) : (ofSize n).toInt = min (n : Int) greatest := by
  have hgreatest : greatest.toNat = 9223372036854775807 := rfl
  rw [ofSize, Int64.toInt_ofNat_of_lt (by omega), hgreatest]
  unfold greatest
  omega

theorem toInt_ofInt?_eq_some {n : Int} {r : Integer} (h : ofInt? n = some r) : r.toInt = n := by
  unfold ofInt? at h
  split at h
  case isTrue hfits =>
    cases h
    obtain ⟨hleast, hgreatest⟩ := hfits
    apply Int64.toInt_ofInt_of_le
    · exact hleast
    · unfold greatest at hgreatest
      omega
  case isFalse => cases h

theorem toInt_add_one {a b : Integer} (h : a.toInt < b.toInt) : (a + 1).toInt = a.toInt + 1 := by
  have ha := Int64.le_toInt a
  have hb := Int64.toInt_lt b
  rw [Int64.toInt_add, Int64.toInt_one]
  apply Int.bmod_eq_of_le <;> omega

theorem toInt_sub_one {a b : Integer} (h : b.toInt < a.toInt) : (a - 1).toInt = a.toInt - 1 := by
  have ha := Int64.toInt_lt a
  have hb := Int64.le_toInt b
  rw [Int64.toInt_sub, Int64.toInt_one]
  apply Int.bmod_eq_of_le <;> omega

theorem toInt_min (a b : Integer) : (min a b).toInt = min a.toInt b.toInt := by
  have hmin : min a b = if a ≤ b then a else b := rfl
  simp only [hmin, Int64.le_iff_toInt_le]
  split <;> omega

theorem toInt_max (a b : Integer) : (max a b).toInt = max a.toInt b.toInt := by
  have hmax : max a b = if a ≤ b then b else a := rfl
  simp only [hmax, Int64.le_iff_toInt_le]
  split <;> omega

/-! ## Sums -/

theorem add?_eq_some_iff {a b r : Integer} : add? a b = some r ↔ r.toInt = a.toInt + b.toInt := by
  constructor
  · exact toInt_ofInt?_eq_some
  · intro h
    rw [add?, ← h, ofInt?_toInt]

theorem add?_of_fits {a b : Integer} (h : Fits (a.toInt + b.toInt)) : ∃ r, add? a b = some r :=
  (ofInt?_of_fits h).imp fun _ hr => hr.1

/-- A sum that fits is not stopped. -/
theorem addSaturating_of_add? {a b r : Integer} (h : add? a b = some r) :
    addSaturating a b = r := by
  obtain ⟨hleast, hgreatest⟩ := fits_toInt r
  rw [addSaturating, ← add?_eq_some_iff.1 h, nearest, min_eq_left hgreatest, max_eq_right hleast,
    Int64.ofInt_toInt]

/-- A total that fits at every step is exact, and is not stopped anywhere. -/
theorem total_of_foldlM {a t : Integer} {amounts : List Integer}
    (h : amounts.foldlM add? a = some t) :
    t.toInt = a.toInt + (amounts.map Int64.toInt).sum ∧ amounts.foldl addSaturating a = t := by
  induction amounts generalizing a with
  | nil =>
    cases h
    simp
  | cons amount amounts ih =>
    rw [List.foldlM_cons] at h
    obtain ⟨b, hb, hrest⟩ := Option.bind_eq_some_iff.1 h
    obtain ⟨hexact, hstopped⟩ := ih hrest
    rw [List.foldl_cons, addSaturating_of_add? hb, List.map_cons, List.sum_cons, hexact,
      add?_eq_some_iff.1 hb]
    exact ⟨add_assoc .., hstopped⟩

/-- A total fits at every step exactly if all its partial sums fit. -/
theorem isSome_foldlM_iff {a : Integer} {amounts : List Integer} :
    (amounts.foldlM add? a).isSome ↔
      ∀ front, front <+: amounts → Fits (a.toInt + (front.map Int64.toInt).sum) := by
  induction amounts generalizing a with
  | nil =>
    simpa using fits_toInt a
  | cons amount amounts ih =>
    rw [List.foldlM_cons]
    constructor
    · intro h front hfront
      obtain ⟨t, ht⟩ := Option.isSome_iff_exists.1 h
      obtain ⟨b, hb, hrest⟩ := Option.bind_eq_some_iff.1 ht
      rcases List.prefix_cons_iff.1 hfront with rfl | ⟨later, rfl, hlater⟩
      · simpa using fits_toInt a
      · have hfits := ih.1 (Option.isSome_iff_exists.2 ⟨t, hrest⟩) later hlater
        rwa [add?_eq_some_iff.1 hb, add_assoc, ← List.sum_cons, ← List.map_cons] at hfits
    · intro h
      have hfirst := h [amount] (List.prefix_append [amount] amounts)
      rw [List.map_singleton, List.sum_singleton] at hfirst
      obtain ⟨b, hb⟩ := add?_of_fits hfirst
      rw [hb, Option.bind_eq_bind, Option.bind_some, ih]
      intro front hfront
      have hfits := h (amount :: front) ((List.prefix_cons_inj amount).2 hfront)
      rwa [List.map_cons, List.sum_cons, ← add_assoc, ← add?_eq_some_iff.1 hb] at hfits

/-- A sum of numbers that are not negative is exact if it fits. -/
theorem toInt_foldl_add {xs : List Integer} (hpos : ∀ x ∈ xs, 0 ≤ x.toInt)
    (hfits : (xs.map Int64.toInt).sum ≤ greatest) :
    (xs.foldl (· + ·) 0).toInt = (xs.map Int64.toInt).sum := by
  induction xs using List.reverseRecOn with
  | nil => rfl
  | append_singleton xs x ih =>
    have hfront : ∀ y ∈ xs, 0 ≤ y.toInt := fun y hy => hpos y (List.mem_append_left _ hy)
    have hx : 0 ≤ x.toInt := hpos x (List.mem_append_right _ List.mem_cons_self)
    have hsum : 0 ≤ (xs.map Int64.toInt).sum :=
      List.sum_nonneg (List.forall_mem_map.2 hfront)
    rw [List.map_append, List.sum_append, List.map_singleton, List.sum_singleton] at hfits ⊢
    rw [List.foldl_concat, Int64.toInt_add, ih hfront (by omega)]
    unfold greatest at hfits
    apply Int.bmod_eq_of_le <;> omega

end DiceScript.Integer
