import DiceScript.Proofs.Eval.Outcome
import DiceScript.Proofs.Value.Order

/-!
Sorted arrays. Where every stat among the elements has a value that fits, the order of sorted arrays
is total. So there is just one way to put the elements up or down that leaves those in their order
that stand in the same place, and that is the array that sorting gives.
-/

namespace DiceScript

variable {σ : Type}

namespace Value

/-- Elements in the order that a direction asks for. They are the elements there were, up or down,
and those that stand in the same place are in the order they had. -/
structure Arrangement (direction : Integer) (es fs : List Value) : Prop where
  perm : fs.Perm es
  ascending : 0 < direction → fs.Pairwise fun a b => a.arrangeOrder b ≠ .gt
  descending : direction < 0 → fs.Pairwise fun a b => a.arrangeOrder b ≠ .lt
  stable : ∀ x ∈ es, (fs.filter fun y => x.arrangeOrder y == .eq) =
    es.filter fun y => x.arrangeOrder y == .eq
  kept : direction = 0 → fs = es

variable {direction : Integer} {es fs gs : List Value} {a b c : Value}

/-! ## Up and down as one order -/

/-- The order that a direction asks for. -/
def along (direction : Integer) (a b : Value) : Ordering :=
  if 0 < direction then a.arrangeOrder b
  else if direction < 0 then b.arrangeOrder a
  else .eq

theorem along_cases (direction : Integer) :
    (0 < direction ∧ ¬ direction < 0 ∧ direction ≠ 0 ∧
        ∀ a b, along direction a b = a.arrangeOrder b) ∨
      (¬ 0 < direction ∧ direction < 0 ∧ direction ≠ 0 ∧
        ∀ a b, along direction a b = b.arrangeOrder a) ∨
      (¬ 0 < direction ∧ ¬ direction < 0 ∧ direction = 0 ∧ ∀ a b, along direction a b = .eq) := by
  have hzero : direction = 0 ↔ direction.toInt = 0 := by
    rw [← Int64.toInt_zero, Int64.toInt_inj]
  simp only [along, Int64.lt_iff_toInt_lt, Int64.toInt_zero, Ne, hzero]
  rcases lt_trichotomy direction.toInt 0 with h | h | h
  · refine .inr (.inl ⟨by omega, h, by omega, fun a b => ?_⟩)
    rw [if_neg (by omega), if_pos h]
  · refine .inr (.inr ⟨by omega, by omega, h, fun a b => ?_⟩)
    rw [if_neg (by omega), if_neg (by omega)]
  · exact .inl ⟨h, by omega, by omega, fun a b => if_pos h⟩

theorem along_swap (direction : Integer) (a b : Value) :
    along direction a b = (along direction b a).swap := by
  rcases along_cases direction with ⟨-, -, -, h⟩ | ⟨-, -, -, h⟩ | ⟨-, -, -, h⟩
  · rw [h, h, arrangeOrder_swap]
  · rw [h, h, arrangeOrder_swap]
  · rw [h, h]
    rfl

theorem along_trans (ha : ¬ a.unwrapPair.Overflows) (hb : ¬ b.unwrapPair.Overflows)
    (hc : ¬ c.unwrapPair.Overflows) (hab : along direction a b ≠ .gt)
    (hbc : along direction b c ≠ .gt) : along direction a c ≠ .gt := by
  rcases along_cases direction with ⟨-, -, -, h⟩ | ⟨-, -, -, h⟩ | ⟨-, -, -, h⟩
  · rw [h] at hab hbc ⊢
    exact arrangeOrder_trans ha hb hc hab hbc
  · rw [h] at hab hbc ⊢
    exact arrangeOrder_trans hc hb ha hbc hab
  · rw [h]
    decide

theorem not_lt_iff_along : (along direction a b == .lt) = false ↔ along direction b a ≠ .gt := by
  rw [along_swap direction a b]
  cases along direction b a <;> decide

theorem tied_iff_along : (!(along direction a b == .lt) && !(along direction b a == .lt)) =
    (along direction a b == .eq) := by
  rw [along_swap direction b a]
  cases along direction a b <;> rfl

theorem sorted_eq_stable (direction : Integer) (es : List Value) :
    sorted direction es = Sorting.stable (fun a b => along direction a b == .lt) es := by
  unfold sorted
  rcases along_cases direction with ⟨hup, -, -, h⟩ | ⟨hup, hdown, -, h⟩ | ⟨hup, hdown, -, h⟩
  · rw [if_pos hup]
    simp only [h]
  · rw [if_neg hup, if_pos hdown]
    simp only [h]
  -- where all elements stand in the same place, a stable sort keeps them all in their order
  · rw [if_neg hup, if_neg hdown]
    have hall : (Sorting.stable (fun a b => along direction a b == .lt) es).filter (fun _ => true) =
        es.filter fun _ => true := Sorting.filter_stable fun x _ y _ _ _ => by
      rw [h]
      rfl
    rw [List.filter_true, List.filter_true] at hall
    exact hall.symm

/-! ## One arrangement -/

/-- What an arrangement is, told of both directions at once. -/
theorem arrangement_iff : Arrangement direction es fs ↔
    fs.Perm es ∧ (fs.Pairwise fun a b => along direction a b ≠ .gt) ∧
      ∀ x ∈ es, (fs.filter fun y => along direction x y == .eq) =
        es.filter fun y => along direction x y == .eq := by
  have hflip : ∀ a b : Value, b.arrangeOrder a ≠ .gt ↔ a.arrangeOrder b ≠ .lt := by
    intro a b
    rw [arrangeOrder_swap]
    cases a.arrangeOrder b <;> decide
  have htied : ∀ a b : Value, (b.arrangeOrder a == .eq) = (a.arrangeOrder b == .eq) := by
    intro a b
    rw [arrangeOrder_swap]
    cases a.arrangeOrder b <;> rfl
  rcases along_cases direction with ⟨hup, hdown, hzero, h⟩ | ⟨hup, hdown, hzero, h⟩ |
    ⟨hup, hdown, hzero, h⟩
  · simp only [h]
    constructor
    · exact fun harr => ⟨harr.perm, harr.ascending hup, harr.stable⟩
    · rintro ⟨hperm, hpairwise, hstable⟩
      exact ⟨hperm, fun _ => hpairwise, fun hneg => absurd hneg hdown, hstable,
        fun heq => absurd heq hzero⟩
  · simp only [h, hflip, htied]
    constructor
    · exact fun harr => ⟨harr.perm, harr.descending hdown, harr.stable⟩
    · rintro ⟨hperm, hpairwise, hstable⟩
      exact ⟨hperm, fun hpos => absurd hpos hup, fun _ => hpairwise, hstable,
        fun heq => absurd heq hzero⟩
  · simp only [h, beq_self_eq_true, List.filter_true]
    constructor
    · intro harr
      have hkept := harr.kept hzero
      exact ⟨harr.perm, List.pairwise_of_forall fun _ _ => nofun, fun _ _ => hkept⟩
    · rintro ⟨hperm, -, hstable⟩
      have hkept : fs = es := by
        cases es with
        | nil => exact hperm.eq_nil
        | cons e es => exact hstable e List.mem_cons_self
      exact ⟨hperm, fun hpos => absurd hpos hup, fun hneg => absurd hneg hdown,
        fun _ _ => by rw [hkept], fun _ => hkept⟩

/-- There is at most one arrangement. -/
theorem Arrangement.unique (hfs : Arrangement direction es fs) (hgs : Arrangement direction es gs) :
    gs = fs := by
  obtain ⟨hperm, hpairwise, hstable⟩ := arrangement_iff.1 hfs
  obtain ⟨hperm', hpairwise', hstable'⟩ := arrangement_iff.1 hgs
  have hself : ∀ x, (along direction x x == .lt) = false := by
    intro x
    rcases along_cases direction with ⟨-, -, -, h⟩ | ⟨-, -, -, h⟩ | ⟨-, -, -, h⟩ <;>
      simp [h, arrangeOrder_self]
  apply @Sorting.eq_of_pairwise_of_filter _ (fun a b => along direction a b == .lt) hself
  · exact hperm'.trans hperm.symm
  · simpa only [not_lt_iff_along] using hpairwise'
  · simpa only [not_lt_iff_along] using hpairwise
  · intro x hx
    have hmem : x ∈ es := hperm'.mem_iff.1 hx
    simp only [tied_iff_along]
    rw [hstable x hmem, hstable' x hmem]

/-- Sorting gives the arrangement, if every stat among the elements has a value that fits. -/
theorem arrangement_sorted (direction : Integer) (hfit : ∀ e ∈ es, ¬ e.unwrapPair.Overflows) :
    Arrangement direction es (sorted direction es) := by
  rw [sorted_eq_stable, arrangement_iff]
  refine ⟨Sorting.stable_perm _ _, ?_, ?_⟩
  · simp only [← not_lt_iff_along]
    apply Sorting.pairwise_stable
    · intro x _ y _ hxy
      rw [not_lt_iff_along, beq_iff_eq.1 hxy]
      decide
    · intro x hx y hy z hz hxy hyz
      rw [not_lt_iff_along] at hxy hyz ⊢
      exact along_trans (hfit z hz) (hfit y hy) (hfit x hx) hyz hxy
  · intro x hx
    apply Sorting.filter_stable
    intro y hy z hz hxy hxz
    rw [beq_iff_eq] at hxy hxz
    have hyx : along direction y x = .eq := by rw [along_swap, hxy]; rfl
    have hzx : along direction z x = .eq := by rw [along_swap, hxz]; rfl
    rw [not_lt_iff_along]
    exact along_trans (hfit z hz) (hfit x hx) (hfit y hy) (by rw [hzx]; decide)
      (by rw [hxy]; decide)

/-- What is sorted stays as it is. -/
theorem sorted_sorted (direction : Integer) (hfit : ∀ e ∈ es, ¬ e.unwrapPair.Overflows) :
    sorted direction (sorted direction es) = sorted direction es := by
  have harr := arrangement_sorted direction hfit
  have hagain : Arrangement direction (sorted direction es)
      (sorted direction (sorted direction es)) :=
    arrangement_sorted direction fun e he => hfit e (harr.perm.mem_iff.1 he)
  obtain ⟨-, hpairwise, -⟩ := arrangement_iff.1 harr
  exact (arrangement_iff.2 ⟨.refl _, hpairwise, fun _ _ => rfl⟩).unique hagain

end Value

namespace Eval

open Value

/-- The sorting operator sorts the elements of its left operand. -/
theorem evalWithin_arrange {engine : Engine σ} {levels : Nat} {left right : Expr}
    {m₁ m₂ m₃ : Machine σ} {es : List Value} {ks : Option Aliases} {b : Value} {n : Integer}
    (hleft : evalWithin engine levels left m₁ = some (.array es ks, m₂))
    (hright : evalWithin engine levels right m₂ = some (b, m₃)) (hn : b.int? = some n) :
    evalWithin engine (levels + 1) (.shift .arrange left right) m₁ =
      some (.ofList (sorted n es), m₃) := by
  have harray : (Value.array es ks).isError = false := rfl
  have hb : b.isError = false := by
    cases b <;> first | rfl | cases hn
  rw [evalWithin_succ, step, shift]
  simp [hleft, hright, harray, hb, shiftValues, arranged, hn]

/-- If the left operand is an array without stats that do not fit, with or without keys, and the
right one counts as a number, then sorting gives the one arrangement of the elements in that
direction: up, down, or as they are. Sorting what was sorted gives it again. -/
theorem arranging_is_a_stable_sort {engine : Engine σ} {levels : Nat} {left right : Expr}
    {m₁ m₂ m₃ : Machine σ} {es : List Value} {ks : Option Aliases} {b : Value} {n : Integer}
    (hleft : evalWithin engine levels left m₁ = some (.array es ks, m₂))
    (hright : evalWithin engine levels right m₂ = some (b, m₃)) (hn : b.int? = some n)
    (hfit : ∀ e ∈ es, ¬ e.unwrapPair.Overflows) :
    ∃ fs, evalWithin engine (levels + 1) (.shift .arrange left right) m₁ = some (.ofList fs, m₃) ∧
      (∀ gs, Arrangement n es gs ↔ gs = fs) ∧
      ∀ (levels' : Nat) (again direction : Expr) (m₁' m₂' m₃' : Machine σ) (c : Value),
        evalWithin engine levels' again m₁' = some (.ofList fs, m₂') →
        evalWithin engine levels' direction m₂' = some (c, m₃') → c.int? = some n →
        evalWithin engine (levels' + 1) (.shift .arrange again direction) m₁' =
          some (.ofList fs, m₃') := by
  have harr := arrangement_sorted n hfit
  refine ⟨sorted n es, evalWithin_arrange hleft hright hn, fun gs => ⟨harr.unique, ?_⟩, ?_⟩
  · rintro rfl
    exact harr
  · intro levels' again direction m₁' m₂' m₃' c hagain hdirection hc
    have hsame : sorted n (Items.ofList (sorted n es)).elements = sorted n es :=
      sorted_sorted n hfit
    rw [evalWithin_arrange hagain hdirection hc, hsame]

/-- Two pairs and two numbers that stand in the same place as one of them, a string and a range. -/
def bundle : List Value :=
  [.pair (.str "b") (.int 2), .int 2, .pair (.str "a") (.int 1), .str "fig",
    .stat ⟨0, some [⟨"ring", .luck, 2⟩], none⟩, .range ⟨1, 3⟩]

/-- A machine with those values in an array. -/
def bundled : Machine (List Integer) where
  context := ⟨[], ⟨[("X", .ofList bundle)]⟩⟩
  log := .empty
  tray := ⟨[], []⟩

/-- Downwards the range comes first, then the string, then the three twos in the order they had. -/
theorem a_bundle_is_put_in_order :
    ∃ fs, evalWithin ⟨.standard, .queue, 1⟩ 2 (.shift .arrange (.var "x") (.number (-4))) bundled =
        some (.ofList fs, bundled) ∧
      (Value.ofList fs).text = "[1..3, \"fig\", \"b\": 2, 2, 2, \"a\": 1]" ∧
      Arrangement (-4) bundle fs := by
  have hfit : ∀ e ∈ bundle, ¬ e.unwrapPair.Overflows := by
    simp only [bundle, List.forall_mem_cons]
    refine ⟨nofun, nofun, nofun, nofun, ?_, nofun, nofun⟩
    rintro ⟨s, hs, hvalue⟩
    cases hs
    exact absurd hvalue (by decide +kernel)
  have hleft : evalWithin ⟨.standard, .queue, 1⟩ 1 (.var "x") bundled =
      some (.ofList bundle, bundled) := rfl
  have hright : evalWithin ⟨.standard, .queue, 1⟩ 1 (.number (-4)) bundled =
      some (.int (-4), bundled) := rfl
  obtain ⟨fs, hfs, hiff, -⟩ := arranging_is_a_stable_sort hleft hright rfl hfit
  have htext : (evalWithin ⟨.standard, .queue, 1⟩ 2
      (.shift .arrange (.var "x") (.number (-4))) bundled).map (fun r => r.1.text) =
        some "[1..3, \"fig\", \"b\": 2, 2, 2, \"a\": 1]" := by decide +kernel
  rw [hfs] at htext
  exact ⟨fs, hfs, Option.some.inj htext, (hiff fs).2 rfl⟩

end Eval

end DiceScript
