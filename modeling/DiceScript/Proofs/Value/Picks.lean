import DiceScript.Proofs.Range
import DiceScript.Value.Index

/-!
Picking parts: the parts of a container are counted by the marks of an index, and every position
below the count is the position of a part.
-/

namespace DiceScript.Value

/-! ## Counting parts -/

/-- What an index can pick from a container: the elements of an array, the characters of a string,
the integers of a range. -/
def parts : Value → List Value
  | .array es _ => es
  | .str s => s.toList.map fun c => .str (String.singleton c)
  | .range r => r.values.map .int
  | _ => []

/-- A part can be picked at random: the container is an array or a string that is not empty, or a
range whose length is an integer. -/
def Pickable : Value → Prop
  | .array es _ => es ≠ []
  | .str s => s ≠ ""
  | .range r => r.length? ≠ none
  | _ => False

variable {c : Value} {mark : String} {count : Integer}

/-- The count is the number of parts, up to the greatest integer. -/
theorem toInt_of_partCount (h : c.partCount mark = .ok count) :
    count.toInt = min (c.parts.length : Int) Integer.greatest := by
  cases c with
  | array es ks =>
    rw [partCount, Except.ok.injEq] at h
    rw [← h, Integer.toInt_ofSize, parts]
  | str s =>
    rw [partCount, Except.ok.injEq] at h
    rw [← h, Integer.toInt_ofSize, parts, List.length_map, String.length_toList]
  | range r =>
    rw [partCount] at h
    cases hlength : r.length? with
    | none =>
      rw [hlength] at h
      cases h
    | some n =>
      rw [hlength, Option.elim_some, Except.ok.injEq] at h
      have hcount : count.toInt = r.count := Integer.toInt_ofInt?_eq_some (h ▸ hlength)
      have hgreatest := Integer.toInt_le_greatest count
      rw [parts, List.length_map, Range.length_values, ← hcount, min_eq_left hgreatest]
  | _ => cases h

/-- A count other than zero leaves a last position. -/
theorem last_of_partCount (h : c.partCount mark = .ok count) (hne : count ≠ 0) :
    0 ≤ count - 1 ∧ (count - 1).toInt = count.toInt - 1 := by
  have hcount := toInt_of_partCount h
  have hne' : count.toInt ≠ 0 :=
    fun hzero => hne (Int64.toInt_inj.1 (hzero.trans Int64.toInt_zero.symm))
  have hpos : 0 < count.toInt := by
    unfold Integer.greatest at hcount
    omega
  have hlast : (count - 1).toInt = count.toInt - 1 :=
    Integer.toInt_sub_one (b := 0) (by rwa [Int64.toInt_zero])
  refine ⟨?_, hlast⟩
  rw [Int64.le_iff_toInt_le, hlast, Int64.toInt_zero]
  omega

theorem parts_ne_nil_of_pickable (h : c.Pickable) : c.parts ≠ [] := by
  cases c with
  | array es ks => exact h
  | str s => exact fun hnil => h (String.toList_eq_nil_iff.1 (List.map_eq_nil_iff.1 hnil))
  | range r =>
    intro hnil
    have hlength := r.length_values
    rw [List.map_eq_nil_iff.1 hnil] at hlength
    cases hlength
  | _ => exact h.elim

theorem partCount_of_pickable (h : c.Pickable) (mark : String) :
    ∃ count, c.partCount mark = .ok count ∧ count ≠ 0 := by
  obtain ⟨count, hcount⟩ : ∃ count, c.partCount mark = .ok count := by
    cases c with
    | array es ks => exact ⟨_, rfl⟩
    | str s => exact ⟨_, rfl⟩
    | range r =>
      obtain ⟨n, hn⟩ := Option.ne_none_iff_exists'.1 h
      exact ⟨n, by rw [partCount, hn, Option.elim_some]⟩
    | _ => exact h.elim
  refine ⟨count, hcount, ?_⟩
  rintro rfl
  have hzero := toInt_of_partCount hcount
  have hlength := List.length_pos_iff.2 (parts_ne_nil_of_pickable h)
  rw [Int64.toInt_zero] at hzero
  unfold Integer.greatest at hzero
  omega

/-! ## Parts at positions -/

/-- A position from the front finds the part that stands there. -/
theorem part_of_nonneg {α : Type} {xs : List α} {i : Integer} {x : α} (h : 0 ≤ i.toInt)
    (hx : xs[i.toInt.toNat]? = some x) : part xs i = .ok x := by
  obtain ⟨hlt, -⟩ := List.getElem?_eq_some_iff.1 hx
  have hposition : Items.position? i xs.length = some i.toInt.toNat := by
    unfold Items.position?
    dsimp only
    rw [if_neg (Int.not_lt.2 h), if_pos (by omega)]
  unfold part
  rw [hposition, Option.bind_some, hx]

/-- An index finds the part at its position. -/
theorem at?_of_parts {i : Integer} {x : Value} (h : 0 ≤ i.toInt)
    (hx : c.parts[i.toInt.toNat]? = some x) : c.at? (.int i) = .ok x := by
  cases c with
  | array es ks => exact part_of_nonneg h hx
  | str s =>
    rw [parts, List.getElem?_map] at hx
    obtain ⟨ch, hch, rfl⟩ := Option.map_eq_some_iff.1 hx
    simp only [at?, part_of_nonneg h hch]
    rfl
  | range r =>
    rw [parts, List.getElem?_map] at hx
    obtain ⟨n, hn, rfl⟩ := Option.map_eq_some_iff.1 hx
    simp only [at?, Range.get?_of_nonneg h, hn]
  | _ => cases hx

end DiceScript.Value
