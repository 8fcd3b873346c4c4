import DiceScript.Proofs.Stacking
import DiceScript.Value.Order

/-!
The order of sorted arrays. Two numbers are compared as numbers, and any other two values by rank
and then by text. Each of the two is an order of its own. They meet in a stat whose value does not
fit, which has the rank of a number and is compared with numbers by text: the order is total on just
those values among which no such stat stands between two numbers the wrong way round.
-/

namespace DiceScript.Value

variable {a b c v : Value} {m n : Integer}

/-- A stat whose value does not fit, so that it counts as no number. -/
def Overflows (v : Value) : Prop := ∃ s, v = .stat s ∧ s.value? = none

/-! ## By rank and text -/

/-- The order of values that are not both numbers. -/
def rankOrder (a b : Value) : Ordering := (compare a.rank b.rank).then (compare a.text b.text)

instance : Std.TransCmp rankOrder :=
  inferInstanceAs (Std.TransCmp (compareLex (compareOn rank) (compareOn text)))

theorem rank_of_int? (h : v.int? = some n) : v.rank = 0 := by
  cases v <;> first | rfl | cases h

/-- A number has the text of its integer. -/
theorem text_of_int? (h : v.int? = some n) : v.text = n.text := by
  cases v with
  | int k =>
    cases h
    rfl
  | stat s => exact congrArg Integer.text (Stat.value_of_value? h)
  | _ => cases h

theorem overflows_or_rank_pos (h : v.int? = none) : v.Overflows ∨ 0 < v.rank := by
  cases v with
  | int k => cases h
  | stat s => exact .inl ⟨s, rfl, h⟩
  | _ => exact .inr (Nat.succ_pos _)

theorem Overflows.rank_eq (h : v.Overflows) : v.rank = 0 := by
  obtain ⟨s, rfl, -⟩ := h
  rfl

/-- Values of one rank are in the order of their texts. -/
theorem rankOrder_of_rank_eq (h : a.rank = b.rank) : a.rankOrder b = compare a.text b.text := by
  rw [rankOrder, Nat.compare_eq_eq.2 h, Ordering.eq_then]

/-- A number stands in front of all that is of another rank. -/
theorem rankOrder_of_rank_pos (ha : a.int? = some n) (hb : 0 < b.rank) : a.rankOrder b = .lt := by
  rw [rankOrder, rank_of_int? ha, Nat.compare_eq_lt.2 hb, Ordering.lt_then]

/-! ## The two cases -/

theorem arrangeOrder_of_numbers (ha : a.unwrapPair.int? = some m)
    (hb : b.unwrapPair.int? = some n) : a.arrangeOrder b = compare m n := by
  simp only [arrangeOrder, order?, ha, hb, Option.getD_some]

theorem arrangeOrder_of_not_numbers (h : a.unwrapPair.int? = none ∨ b.unwrapPair.int? = none) :
    a.arrangeOrder b = a.unwrapPair.rankOrder b.unwrapPair := by
  have horder : a.unwrapPair.order? b.unwrapPair = none ∨ ∃ s t, a.unwrapPair = .str s ∧
      b.unwrapPair = .str t ∧ a.unwrapPair.order? b.unwrapPair = some (compare s t) := by
    unfold order?
    split
    case h_1 hm hn => simp [hm, hn] at h
    case h_2 =>
      split
      case h_1 s t hs ht => exact .inr ⟨s, t, hs, ht, rfl⟩
      case h_2 => exact .inl rfl
  unfold arrangeOrder
  dsimp only
  rcases horder with hnone | ⟨s, t, hs, ht, hsome⟩
  · rw [hnone]
    rfl
  -- the text of a string is the string, so that strings are in the order of their texts
  · rw [hsome, hs, ht]
    rfl

theorem arrangeOrder_cases (a b : Value) :
    (∃ m n, a.unwrapPair.int? = some m ∧ b.unwrapPair.int? = some n ∧
        a.arrangeOrder b = compare m n) ∨
      ((a.unwrapPair.int? = none ∨ b.unwrapPair.int? = none) ∧
        a.arrangeOrder b = a.unwrapPair.rankOrder b.unwrapPair) := by
  cases ha : a.unwrapPair.int? with
  | none => exact .inr ⟨.inl rfl, arrangeOrder_of_not_numbers (.inl ha)⟩
  | some m =>
    cases hb : b.unwrapPair.int? with
    | none => exact .inr ⟨.inr rfl, arrangeOrder_of_not_numbers (.inr hb)⟩
    | some n => exact .inl ⟨m, n, rfl, rfl, arrangeOrder_of_numbers ha hb⟩

theorem arrangeOrder_swap (a b : Value) : a.arrangeOrder b = (b.arrangeOrder a).swap := by
  rcases arrangeOrder_cases a b with ⟨m, n, ha, hb, h⟩ | ⟨hnot, h⟩
  · rw [h, arrangeOrder_of_numbers hb ha]
    exact Std.OrientedCmp.eq_swap
  · rw [h, arrangeOrder_of_not_numbers hnot.symm]
    exact Std.OrientedCmp.eq_swap

theorem arrangeOrder_self (a : Value) : a.arrangeOrder a = .eq := by
  rcases arrangeOrder_cases a a with ⟨m, n, ha, hb, h⟩ | ⟨-, h⟩
  · rw [ha] at hb
    cases hb
    rw [h]
    exact Std.ReflCmp.compare_self
  · rw [h]
    exact Std.ReflCmp.compare_self

/-! ## Numbers around a stat that does not fit -/

/-- A stat whose value does not fit stands between two numbers, after the higher and before the
lower one by their texts. -/
structure Tangles (s low high : Value) : Prop where
  overflows : s.unwrapPair.Overflows
  less : ∃ m n, low.unwrapPair.int? = some m ∧ high.unwrapPair.int? = some n ∧ m < n
  above : high.unwrapPair.text ≤ s.unwrapPair.text
  below : s.unwrapPair.text ≤ low.unwrapPair.text

theorem Overflows.int?_eq (h : v.Overflows) : v.int? = none := by
  obtain ⟨s, rfl, hs⟩ := h
  exact hs

/-- A stat that does not fit is compared with numbers by text. -/
theorem text_le_iff (ha : a.unwrapPair.rank = 0) (hb : b.unwrapPair.rank = 0)
    (h : a.unwrapPair.int? = none ∨ b.unwrapPair.int? = none) :
    a.arrangeOrder b ≠ .gt ↔ a.unwrapPair.text ≤ b.unwrapPair.text := by
  rw [arrangeOrder_of_not_numbers h, rankOrder_of_rank_eq (ha.trans hb.symm), compare_le_iff_le]

theorem le_of_tangles {s low high : Value} (h : Tangles s low high) :
    high.arrangeOrder s ≠ .gt ∧ s.arrangeOrder low ≠ .gt ∧ high.arrangeOrder low = .gt := by
  obtain ⟨m, n, hlow, hhigh, hless⟩ := h.less
  refine ⟨?_, ?_, ?_⟩
  · have hrank := rank_of_int? hhigh
    exact (text_le_iff hrank h.overflows.rank_eq (.inr h.overflows.int?_eq)).2 h.above
  · exact (text_le_iff h.overflows.rank_eq (rank_of_int? hlow) (.inl h.overflows.int?_eq)).2 h.below
  · rw [arrangeOrder_of_numbers hhigh hlow]
    exact Std.compare_eq_gt.2 hless

/-- What is neither a number nor a stat that does not fit stands behind every number. -/
theorem arrangeOrder_of_rank_pos (ha : a.unwrapPair.int? = some n) (hb : 0 < b.unwrapPair.rank) :
    a.arrangeOrder b = .lt := by
  have hnot : b.unwrapPair.int? = none := by
    cases hnumber : b.unwrapPair.int? with
    | none => rfl
    | some m => exact absurd (rank_of_int? hnumber) hb.ne'
  rw [arrangeOrder_of_not_numbers (.inr hnot), rankOrder_of_rank_pos ha hb]

theorem lt_of_gt {low high : Value} (hlow : low.unwrapPair.int? = some m)
    (hhigh : high.unwrapPair.int? = some n) (h : high.arrangeOrder low = .gt) : m < n := by
  rw [arrangeOrder_of_numbers hhigh hlow] at h
  exact Std.compare_eq_gt.1 h

/-- Two numbers that are in the wrong order around a value are tangled by it. -/
theorem tangles_of_gt {s low high : Value} (hs : s.unwrapPair.int? = none)
    (hlow : low.unwrapPair.int? = some m) (hhigh : high.unwrapPair.int? = some n)
    (habove : high.arrangeOrder s ≠ .gt) (hbelow : s.arrangeOrder low ≠ .gt)
    (hgt : high.arrangeOrder low = .gt) : Tangles s low high := by
  rcases overflows_or_rank_pos hs with hoverflows | hpos
  · refine ⟨hoverflows, ⟨m, n, hlow, hhigh, lt_of_gt hlow hhigh hgt⟩, ?_, ?_⟩
    · exact (text_le_iff (rank_of_int? hhigh) hoverflows.rank_eq (.inr hs)).1 habove
    · exact (text_le_iff hoverflows.rank_eq (rank_of_int? hlow) (.inl hs)).1 hbelow
  · rw [arrangeOrder_swap, arrangeOrder_of_rank_pos hlow hpos] at hbelow
    exact absurd rfl hbelow

/-- Values with one number stand in the same place. -/
theorem arrangeOrder_congr (ha : a.unwrapPair.int? = some n) (hb : b.unwrapPair.int? = some n)
    (c : Value) : a.arrangeOrder c = b.arrangeOrder c := by
  cases hc : c.unwrapPair.int? with
  | some m => rw [arrangeOrder_of_numbers ha hc, arrangeOrder_of_numbers hb hc]
  | none =>
    rw [arrangeOrder_of_not_numbers (.inr hc), arrangeOrder_of_not_numbers (.inr hc), rankOrder,
      rankOrder, rank_of_int? ha, rank_of_int? hb, text_of_int? ha, text_of_int? hb]

theorem ne_gt_of_gt (h : a.arrangeOrder b = .gt) : b.arrangeOrder a ≠ .gt := by
  rw [arrangeOrder_swap, h]
  decide

/-- Of two numbers that stand in this order, but on different sides of a third value, the second is
the higher one. -/
theorem gt_of_apart (ha : a.unwrapPair.int? = some m) (hb : b.unwrapPair.int? = some n)
    (hab : a.arrangeOrder b ≠ .gt) (h : a.arrangeOrder c ≠ b.arrangeOrder c) :
    b.arrangeOrder a = .gt := by
  rw [arrangeOrder_of_numbers ha hb] at hab
  rw [arrangeOrder_of_numbers hb ha]
  refine Std.OrientedCmp.gt_iff_lt.2 ?_
  cases hmn : compare m n with
  | lt => rfl
  | eq =>
    obtain rfl := Std.LawfulEqOrd.eq_of_compare hmn
    exact absurd (arrangeOrder_congr ha hb c) h
  | gt => exact absurd hmn hab

/-- Where the order of three values turns back, one of them tangles the other two. -/
theorem tangles_of_not_trans (hab : a.arrangeOrder b ≠ .gt) (hbc : b.arrangeOrder c ≠ .gt)
    (hac : a.arrangeOrder c = .gt) : Tangles b c a ∨ Tangles c a b ∨ Tangles a b c := by
  -- at most one number: all three are compared by rank and text
  have htexts : (a.unwrapPair.int? = none ∨ b.unwrapPair.int? = none) →
      (b.unwrapPair.int? = none ∨ c.unwrapPair.int? = none) →
      (a.unwrapPair.int? = none ∨ c.unwrapPair.int? = none) → False := by
    intro hnotab hnotbc hnotac
    rw [arrangeOrder_of_not_numbers hnotab, Ne, Ordering.ne_gt_iff_isLE] at hab
    rw [arrangeOrder_of_not_numbers hnotbc, Ne, Ordering.ne_gt_iff_isLE] at hbc
    rw [arrangeOrder_of_not_numbers hnotac] at hac
    exact Ordering.ne_gt_iff_isLE.2 (Std.TransCmp.isLE_trans hab hbc) hac
  have hca := ne_gt_of_gt hac
  cases ha : a.unwrapPair.int? with
  | some m =>
    cases hb : b.unwrapPair.int? with
    | some n =>
      cases hc : c.unwrapPair.int? with
      | some k =>
        rw [arrangeOrder_of_numbers ha hb, Ne, Ordering.ne_gt_iff_isLE] at hab
        rw [arrangeOrder_of_numbers hb hc, Ne, Ordering.ne_gt_iff_isLE] at hbc
        rw [arrangeOrder_of_numbers ha hc] at hac
        exact absurd hac (Ordering.ne_gt_iff_isLE.2 (Std.TransCmp.isLE_trans hab hbc))
      | none =>
        have happart : a.arrangeOrder c ≠ b.arrangeOrder c := fun heq => hbc (heq ▸ hac)
        exact .inr (.inl (tangles_of_gt hc ha hb hbc hca (gt_of_apart ha hb hab happart)))
    | none =>
      cases hc : c.unwrapPair.int? with
      | some k => exact .inl (tangles_of_gt hb hc ha hab hbc hac)
      | none => exact (htexts (.inr hb) (.inl hb) (.inr hc)).elim
  | none =>
    cases hb : b.unwrapPair.int? with
    | some n =>
      cases hc : c.unwrapPair.int? with
      | some k =>
        have happart : b.arrangeOrder a ≠ c.arrangeOrder a := by
          rw [arrangeOrder_swap b, arrangeOrder_swap c, hac]
          exact fun heq => hab (Ordering.swap_inj.1 heq)
        exact .inr (.inr (tangles_of_gt ha hb hc hca hab (gt_of_apart hb hc hbc happart)))
      | none => exact (htexts (.inl ha) (.inr hc) (.inl ha)).elim
    | none => exact (htexts (.inl ha) (.inl hb) (.inl ha)).elim

/-- Without stats that do not fit the order is transitive. -/
theorem arrangeOrder_trans (ha : ¬ a.unwrapPair.Overflows) (hb : ¬ b.unwrapPair.Overflows)
    (hc : ¬ c.unwrapPair.Overflows) (hab : a.arrangeOrder b ≠ .gt) (hbc : b.arrangeOrder c ≠ .gt) :
    a.arrangeOrder c ≠ .gt := by
  intro hac
  rcases tangles_of_not_trans hab hbc hac with h | h | h
  · exact hb h.overflows
  · exact hc h.overflows
  · exact ha h.overflows

/-- The order of sorted arrays is the same read from either side, and no value is before itself. It
is transitive among given values exactly if no stat among them whose value does not fit stands
between two numbers among them the wrong way round. -/
theorem order_is_total_unless_tangled (vs : Set Value) :
    (∀ a b : Value, a.arrangeOrder b = (b.arrangeOrder a).swap) ∧
    (∀ a : Value, a.arrangeOrder a = .eq) ∧
    ((∀ a ∈ vs, ∀ b ∈ vs, ∀ c ∈ vs,
        a.arrangeOrder b ≠ .gt → b.arrangeOrder c ≠ .gt → a.arrangeOrder c ≠ .gt) ↔
      ¬ ∃ s ∈ vs, ∃ low ∈ vs, ∃ high ∈ vs, Tangles s low high) := by
  refine ⟨arrangeOrder_swap, arrangeOrder_self, ?_, ?_⟩
  · rintro htrans ⟨s, hs, low, hlow, high, hhigh, htangles⟩
    obtain ⟨habove, hbelow, hgt⟩ := le_of_tangles htangles
    exact htrans high hhigh s hs low hlow habove hbelow hgt
  · intro hnot a ha b hb c hc hab hbc hac
    apply hnot
    rcases tangles_of_not_trans hab hbc hac with h | h | h
    · exact ⟨b, hb, c, hc, a, ha, h⟩
    · exact ⟨c, hc, a, ha, b, hb, h⟩
    · exact ⟨a, ha, b, hb, c, hc, h⟩

/-- A stat whose value is one more than the greatest integer. Its text is that of the greatest
integer. -/
def towering : Value := .stat ⟨Int64.maxValue, some [⟨"ring", .luck, 1⟩], none⟩

theorem overflows_towering : towering.Overflows := ⟨_, rfl, by decide +kernel⟩

/-- The stat stands between five and ninety-five by text, and they are in that order. -/
theorem five_and_ninety_five_are_not_tangled :
    let vs : Set Value := {towering, .int 5, .int 95}
    (¬ ∃ s ∈ vs, ∃ low ∈ vs, ∃ high ∈ vs, Tangles s low high) ∧
      ∀ a ∈ vs, ∀ b ∈ vs, ∀ c ∈ vs,
        a.arrangeOrder b ≠ .gt → b.arrangeOrder c ≠ .gt → a.arrangeOrder c ≠ .gt := by
  intro vs
  have hnot : ¬ ∃ s ∈ vs, ∃ low ∈ vs, ∃ high ∈ vs, Tangles s low high := by
    rintro ⟨s, hs, low, hlow, high, hhigh, h⟩
    have hstat : s = towering := by
      rcases hs with rfl | rfl | rfl
      · rfl
      · exact absurd h.overflows.int?_eq nofun
      · exact absurd h.overflows.int?_eq nofun
    subst hstat
    obtain ⟨m, n, hm, hn, hless⟩ := h.less
    have htowering : towering.unwrapPair.int? = none := overflows_towering.int?_eq
    rcases hlow with rfl | rfl | rfl
    · rw [htowering] at hm
      cases hm
    · exact absurd h.below (by decide +kernel)
    · cases hm
      rcases hhigh with rfl | rfl | rfl
      · rw [htowering] at hn
        cases hn
      · cases hn
        exact absurd hless (by decide)
      · cases hn
        exact absurd hless (by decide)
  exact ⟨hnot, (order_is_total_unless_tangled vs).2.2.2 hnot⟩

/-- The stat is before ninety-three, which is before a hundred, which is before the stat. -/
theorem ninety_three_and_a_hundred_are_tangled :
    towering.arrangeOrder (.int 93) ≠ .gt ∧ (int 93).arrangeOrder (.int 100) ≠ .gt ∧
      towering.arrangeOrder (.int 100) = .gt := by
  decide +kernel

end DiceScript.Value
