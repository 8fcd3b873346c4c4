import DiceScript.Range
import DiceScript.Proofs.Integer

/-!
The integers of a range. Going through a range and looking up an index give the same integers: the
one at a place is the first end and as many steps toward the last one. No step on the way leaves the
integers, also in the range of all integers, whose length is not one of them.
-/

namespace DiceScript.Range

variable (r : Range)

/-- The number at a place of the range. -/
def place (i : Nat) : Int := if r.lower ≤ r.upper then r.lower.toInt + i else r.lower.toInt - i

theorem place_zero : r.place 0 = r.lower.toInt := by
  unfold place
  split <;> simp

theorem place_last : r.place (r.count - 1) = r.upper.toInt := by
  unfold place count
  split
  case isTrue h =>
    have hup := Int64.le_iff_toInt_le.1 h
    omega
  case isFalse h =>
    have hdown := Int64.le_iff_toInt_le.not.1 h
    omega

variable {r} {i : Nat} {n : Integer}

/-- A place that is not the last one has a next one. -/
theorem next?_of_lt (hn : n.toInt = r.place i) (hi : i + 1 < r.count) :
    ∃ next, r.next? n = some next ∧ next.toInt = r.place (i + 1) := by
  have hne : n ≠ r.upper := by
    rintro rfl
    unfold count at hi
    unfold place at hn
    split at hn <;> omega
  unfold next?
  rw [if_neg hne]
  refine ⟨_, rfl, ?_⟩
  unfold count at hi
  unfold place at hn ⊢
  by_cases h : r.lower ≤ r.upper
  · have hup := Int64.le_iff_toInt_le.1 h
    rw [if_pos h] at hn ⊢
    rw [if_pos h, Integer.toInt_add_one (b := r.upper) (by omega), hn]
    push_cast
    ring
  · have hdown := Int64.le_iff_toInt_le.not.1 h
    rw [if_neg h] at hn ⊢
    rw [if_neg h, Integer.toInt_sub_one (b := r.upper) (by omega), hn]
    push_cast
    ring

/-- From a place on, the range is gone through to its last place, or as far as the bound allows. The
induction is on the bound. -/
theorem map_toInt_walk (k : Nat) (hn : n.toInt = r.place i) (hi : i < r.count) :
    (r.walk k n).map Int64.toInt = (List.range' i (min k (r.count - i))).map r.place := by
  induction k generalizing i n with
  | zero => simp [walk]
  | succ k ih =>
    unfold walk
    by_cases hlast : i + 1 < r.count
    · obtain ⟨next, hnext, hplace⟩ := next?_of_lt hn hlast
      have hmin : min (k + 1) (r.count - i) = min k (r.count - (i + 1)) + 1 := by omega
      rw [hnext, hmin, List.range'_succ]
      simp only [List.map_cons, hn, ih hplace hlast]
    · have hmin : min (k + 1) (r.count - i) = 1 := by omega
      obtain rfl : i = r.count - 1 := by omega
      rw [r.place_last, Int64.toInt_inj] at hn
      simp [hmin, hn, next?, r.place_last]

variable (r)

theorem map_toInt_take (k : Nat) :
    (r.take k).map Int64.toInt = (List.range (min k r.count)).map r.place := by
  rw [List.range_eq_range']
  exact map_toInt_walk k r.place_zero.symm (Nat.succ_pos _)

theorem map_toInt_values : r.values.map Int64.toInt = (List.range r.count).map r.place := by
  have h := r.map_toInt_take r.count
  rwa [Nat.min_self] at h

/-- Going on behind the last integer gives no more of them. -/
theorem take_eq (k : Nat) : r.take k = r.values.take k := by
  have hplaces : (r.take k).map Int64.toInt = (r.values.take k).map Int64.toInt := by
    rw [map_toInt_take, List.map_take, map_toInt_values, ← List.map_take, List.take_range]
  exact List.map_injective_iff.2 (fun _ _ => Int64.toInt_inj.1) hplaces

theorem length_values : r.values.length = r.count := by
  have h := congrArg List.length r.map_toInt_values
  simpa using h

variable {r}

theorem getElem?_values (hi : i < r.count) : ∃ n, r.values[i]? = some n ∧ n.toInt = r.place i := by
  have h := congrArg (·[i]?) r.map_toInt_values
  simp only [List.getElem?_map, List.getElem?_range hi, Option.map_some] at h
  exact Option.map_eq_some_iff.1 h

/-- An index from the front finds what stands at its place. -/
theorem get?_of_nonneg {index : Integer} (h : 0 ≤ index.toInt) :
    r.get? index = r.values[index.toInt.toNat]? := by
  unfold get?
  simp only [if_neg (Int.not_lt.2 h)]
  by_cases hi : index.toInt < r.count
  · obtain ⟨n, hn, hplace⟩ := getElem?_values (r := r) (i := index.toInt.toNat) (by omega)
    have hnumber : (if r.lower ≤ r.upper then r.lower.toInt + index.toInt
        else r.lower.toInt - index.toInt) = n.toInt := by
      rw [hplace, place, Int.toNat_of_nonneg h]
    rw [if_pos ⟨h, hi⟩, hn, hnumber, Integer.ofInt?_toInt]
  · rw [if_neg fun hin => hi hin.2, List.getElem?_eq_none]
    rw [length_values]
    omega

/-- An index from the end finds what stands as many places in front of it. -/
theorem get?_of_neg {index : Integer} {k : Nat} (h : index.toInt = -k) (hpos : 1 ≤ k)
    (hk : k ≤ r.count) : r.get? index = r.values[r.count - k]? := by
  obtain ⟨n, hn, hplace⟩ := getElem?_values (r := r) (i := r.count - k) (by omega)
  have hposition : (r.count : Int) + index.toInt = ((r.count - k : Nat) : Int) := by omega
  have hnumber : (if r.lower ≤ r.upper then r.lower.toInt + ((r.count - k : Nat) : Int)
      else r.lower.toInt - ((r.count - k : Nat) : Int)) = n.toInt := hplace.symm
  unfold get?
  simp only [if_pos (show index.toInt < 0 by omega), hposition, hnumber]
  rw [if_pos (by omega), hn, Integer.ofInt?_toInt]

/-- No other index finds anything. -/
theorem get?_eq_none {index : Integer} (h : index.toInt < -r.count ∨ r.count ≤ index.toInt) :
    r.get? index = none := by
  unfold get?
  refine if_neg ?_
  split <;> omega

/-- Each integer of a range but the last has the next one a step away. -/
theorem next?_of_mem (hn : n ∈ r.values) (hlast : n ≠ r.upper) :
    ∃ next, r.next? n = some next ∧ next ∈ r.values ∧
      next.toInt = n.toInt + if r.lower ≤ r.upper then 1 else -1 := by
  obtain ⟨i, hi, hget⟩ := List.mem_iff_getElem.1 hn
  rw [length_values] at hi
  obtain ⟨m, hm, hplace⟩ := getElem?_values hi
  obtain rfl : n = m := by
    rw [← hget]
    exact Option.some.inj ((List.getElem?_eq_getElem _).symm.trans hm)
  have hnext : i + 1 < r.count := by
    by_contra hend
    obtain rfl : i = r.count - 1 := by omega
    exact hlast (Int64.toInt_inj.1 (hplace.trans r.place_last))
  obtain ⟨next, hsome, hnextPlace⟩ := next?_of_lt hplace hnext
  obtain ⟨m, hm, hmPlace⟩ := getElem?_values hnext
  obtain rfl : next = m := Int64.toInt_inj.1 (hnextPlace.trans hmPlace.symm)
  refine ⟨next, hsome, List.mem_of_getElem? hm, ?_⟩
  rw [hnextPlace, hplace]
  unfold place
  split
  · push_cast
    ring
  · push_cast
    ring

/-- Going through a range, looking up an index and the length tell the same integers. -/
structure Consistent (r : Range) : Prop where
  length_values : r.values.length = (r.upper.toInt - r.lower.toInt).natAbs + 1
  first : r.values.head? = some r.lower
  last : r.values.getLast? = some r.upper
  /-- A step gives the exact next number, and stays in the range. -/
  steps : ∀ n ∈ r.values, n ≠ r.upper → ∃ next, r.next? n = some next ∧ next ∈ r.values ∧
    next.toInt = n.toInt + if r.lower ≤ r.upper then 1 else -1
  places : ∀ (i : Nat) (n : Integer), r.values[i]? = some n →
    n.toInt = if r.lower ≤ r.upper then r.lower.toInt + i else r.lower.toInt - i
  /-- The integers end by themselves, however many are asked for. -/
  stops : ∀ k, r.take k = r.values.take k
  fromFront : ∀ index : Integer, 0 ≤ index.toInt → index.toInt < r.values.length →
    ∃ n, r.get? index = some n ∧ r.values[index.toInt.toNat]? = some n
  fromEnd : ∀ (index : Integer) (k : Nat), index.toInt = -k → 1 ≤ k → k ≤ r.values.length →
    ∃ n, r.get? index = some n ∧ r.values.reverse[k - 1]? = some n
  outside : ∀ index : Integer,
    index.toInt < -r.values.length ∨ r.values.length ≤ index.toInt → r.get? index = none
  length : ∀ n, r.length? = some n ↔ n.toInt = r.values.length
  fits : r.length?.isSome ↔ (r.values.length : Int) ≤ Integer.greatest

/-- The three ways to look at a range agree, whatever its ends are. -/
theorem ways_to_look_at_a_range_agree (r : Range) : r.Consistent where
  length_values := r.length_values
  first := by
    obtain ⟨n, hn, hplace⟩ := getElem?_values (r := r) (i := 0) (Nat.succ_pos _)
    rw [List.head?_eq_getElem?, hn, Int64.toInt_inj.1 (hplace.trans r.place_zero)]
  last := by
    obtain ⟨n, hn, hplace⟩ := getElem?_values (r := r) (i := r.count - 1) (Nat.lt_succ_self _)
    rw [List.getLast?_eq_getElem?, r.length_values, hn,
      Int64.toInt_inj.1 (hplace.trans r.place_last)]
  steps := fun _ hn hlast => next?_of_mem hn hlast
  places := by
    intro i n hn
    have hi : i < r.count := by
      rw [← r.length_values]
      exact (List.getElem?_eq_some_iff.1 hn).1
    obtain ⟨m, hm, hplace⟩ := getElem?_values hi
    rw [hm] at hn
    cases hn
    exact hplace
  stops := r.take_eq
  fromFront := by
    intro index hpos hlt
    rw [r.length_values] at hlt
    obtain ⟨n, hn, -⟩ := getElem?_values (r := r) (i := index.toInt.toNat) (by omega)
    exact ⟨n, by rw [get?_of_nonneg hpos, hn], hn⟩
  fromEnd := by
    intro index k hindex hpos hk
    have hfront : r.values.length - 1 - (k - 1) = r.count - k := by
      rw [r.length_values]
      omega
    rw [r.length_values] at hk
    obtain ⟨n, hn, -⟩ := getElem?_values (r := r) (i := r.count - k) (by omega)
    refine ⟨n, by rw [get?_of_neg hindex hpos hk, hn], ?_⟩
    rw [List.getElem?_reverse (by rw [r.length_values]; omega), hfront, hn]
  outside := fun index h => get?_eq_none (by rwa [r.length_values] at h)
  length := by
    intro n
    rw [r.length_values, length?]
    constructor
    · exact Integer.toInt_ofInt?_eq_some
    · intro h
      rw [← h, Integer.ofInt?_toInt]
  fits := by
    rw [r.length_values, length?]
    constructor
    · intro h
      obtain ⟨n, hn⟩ := Option.isSome_iff_exists.1 h
      rw [← Integer.toInt_ofInt?_eq_some hn]
      exact n.toInt_le_greatest
    · intro h
      have hfits : Integer.Fits r.count := ⟨by unfold Integer.least; omega, h⟩
      obtain ⟨n, hn, -⟩ := Integer.ofInt?_of_fits hfits
      rw [hn]
      rfl

/-- The range of all integers is too long for its length to be one, and still has both ends. -/
example : (⟨Int64.minValue, Int64.maxValue⟩ : Range).length? = none ∧
    (⟨Int64.minValue, Int64.maxValue⟩ : Range).get? (-1) = some Int64.maxValue := by
  decide

end DiceScript.Range
