import DiceScript.Proofs.Eval.Arithmetic
import DiceScript.Proofs.Eval.CopyBack
import DiceScript.Proofs.Eval.Updates
import DiceScript.Proofs.Grammar.Values

/-!
Values that are deferred and evaluated. The text of a deferred value is evaluated to that value,
unless there is a number in it whose numeral does not fit without its sign, or a pair whose value
ends with a range. Then the text is evaluated to an error.
-/

namespace DiceScript

namespace Value

/-! ## Values that can be read back -/

/-- Whether the text of a value is read as something else: the least number, whose numeral does not
fit without the sign, also as an end of a range, and a pair whose value is written with a range at
its end. -/
def isMisread : Value → Bool
  | .int n => n.toInt = Integer.least
  | .range r => r.lower.toInt = Integer.least || r.upper.toInt = Integer.least
  | .pair _ value => value.rangeEnd?.isSome
  | _ => false

/-- A value in which nothing is misread. -/
def Legible (v : Value) : Prop := ∀ w : Value, w.Occurs v → w.isMisread = false

theorem legible_of_plain {v : Value} (h : v.isPlain = true) : v.Legible ↔ v.isMisread = false :=
  forall_occurs_plain h

theorem legible_pair {key : String} {v : Value} :
    Legible (.pair (.str key) v) ↔ v.rangeEnd? = none ∧ v.Legible := by
  have hkey : Legible (.str key) := (legible_of_plain rfl).2 rfl
  unfold Legible at hkey ⊢
  rw [forall_occurs_pair]
  simp only [isMisread, Option.isSome_eq_false_iff, Option.isNone_iff_eq_none]
  exact ⟨fun h => ⟨h.1, h.2.2⟩, fun h => ⟨h.1, hkey, h.2⟩⟩

/-- A pair whose value ends with a range is read as a range that begins with a pair. -/
theorem not_legible_pair {key v : Value} {n : Integer} (h : v.rangeEnd? = some n) :
    ¬ Legible (.pair key v) := by
  intro hpair
  have hmisread := hpair _ .here
  rw [isMisread, h] at hmisread
  cases hmisread

theorem legible_range {r : Range} :
    Legible (.range r) ↔ Legible (.int r.lower) ∧ Legible (.int r.upper) := by
  rw [legible_of_plain rfl, legible_of_plain rfl, legible_of_plain rfl]
  exact Bool.or_eq_false_iff

theorem legible_array {es : List Value} {ks : Option Aliases} :
    Legible (.array es ks) ↔ ∀ e ∈ es, e.Legible := by
  unfold Legible
  rw [forall_occurs_array]
  exact ⟨fun h => h.2, fun h => ⟨rfl, h⟩⟩

theorem rangeEnd?_front (v : Value) : v.front.rangeEnd? = none := by
  fun_induction front v with
  | case1 r => rfl
  | case2 key value ih => exact ih
  | case3 v hrange hpair =>
    cases v with
    | range r => exact absurd rfl (hrange r)
    | pair key value => exact absurd rfl (hpair key value)
    | _ => rfl

theorem front_of_rangeEnd?_eq_none {v : Value} (h : v.rangeEnd? = none) : v.front = v := by
  fun_induction front v with
  | case1 r => cases h
  | case2 key value ih => rw [ih h]
  | case3 v hrange hpair => rfl

theorem Data.not_error {v : Value} (h : v.Data) : v.isError = false := by
  cases h <;> rfl

theorem Data.front {v : Value} (h : v.Data) : v.front.Data := by
  induction h with
  | int n => exact .int n
  | str s => exact .str s
  | range r => exact .int r.lower
  | pair key hv ih => exact .pair key ih
  | array hkeys helements ih => exact .array hkeys helements

/-! ## Levels -/

mutual

/-- The number of levels below a value in the expression that it is written as. -/
def levels : Value → Nat
  | .int _ => 1
  | .range _ => 2
  | .pair _ value => value.levels + 1
  | .array elements _ => levelsOfAll elements + 1
  | _ => 0

/-- The greatest number of levels below one of the elements. -/
def levelsOfAll : List Value → Nat
  | [] => 0
  | v :: vs => max v.levels (levelsOfAll vs)

end

theorem levels_front {v : Value} {n : Integer} (h : v.rangeEnd? = some n) :
    v.front.levels < v.levels ∧ 1 < v.levels := by
  fun_induction front v with
  | case1 r => exact ⟨Nat.lt_succ_self 1, Nat.lt_succ_self 1⟩
  | case2 key value ih =>
    obtain ⟨hfront, hone⟩ := ih h
    exact ⟨Nat.succ_lt_succ hfront, Nat.lt_succ_of_lt hone⟩
  | case3 v hrange hpair =>
    cases v with
    | range r => exact absurd rfl (hrange r)
    | pair key value => exact absurd rfl (hpair key value)
    | _ => cases h

end Value

namespace Eval

open Grammar Value

/-! ## What the text of a value comes to -/

/-- What an expression that a value is written as may come to: the value itself, if nothing in it is
misread, and an error otherwise. -/
def Restored (v w : Value) : Prop := (v.Legible ∧ w = v) ∨ (¬ v.Legible ∧ w.isError = true)

theorem isError_binary_range {x y : Value} (h : x.isError = true ∨ y.isError = true) :
    (Value.binary .range x y).isError = true := by
  by_cases hx : x.isError = true
  · simp [Value.binary, hx]
  · simp [Value.binary, hx, h.resolve_left hx]

/-- Of the ends of a range, both are restored or one comes to an error. -/
theorem Restored.range {r : Range} {x y : Value} (hx : Restored (.int r.lower) x)
    (hy : Restored (.int r.upper) y) : Restored (.range r) (Value.binary .range x y) := by
  rw [Restored, legible_range]
  rcases hx with ⟨hlower, rfl⟩ | ⟨hlower, herror⟩
  · rcases hy with ⟨hupper, rfl⟩ | ⟨hupper, herror⟩
    · exact .inl ⟨⟨hlower, hupper⟩, rfl⟩
    · exact .inr ⟨fun h => hupper h.2, isError_binary_range (.inr herror)⟩
  · exact .inr ⟨fun h => hlower h.1, isError_binary_range (.inl herror)⟩

/-- An expression comes to what a value is restored as, if there are levels enough for it, and it
changes nothing. -/
def Restores (v : Value) (e : Expr) : Prop :=
  ∀ (σ : Type) (engine : Engine σ) (n : Nat) (m : Machine σ), v.levels < n →
    ∃ w, evalWithin engine n e m = some (w, m) ∧ Restored v w

namespace Restores

theorem str (s : String) : Restores (.str s) (.text s) := by
  intro σ engine n m hn
  obtain ⟨n, rfl⟩ : ∃ i, n = i + 1 := ⟨n - 1, by omega⟩
  exact ⟨.str s, rfl, .inl ⟨(legible_of_plain rfl).2 rfl, rfl⟩⟩

/-- A number that is not negative. -/
theorem natural {n : Integer} {k : Nat} (hn : n.toInt = k) {e : Expr}
    (he : (∃ n, Integer.ofInt? k = some n ∧ e = .number n) ∨
      Integer.ofInt? k = none ∧ ∃ message, e = .error message) : Restores (.int n) e := by
  have hlegible : Legible (.int n) := by
    refine (legible_of_plain rfl).2 ?_
    simp only [isMisread, hn, Integer.least, decide_eq_false_iff_not]
    omega
  rw [← hn, Integer.ofInt?_toInt] at he
  obtain ⟨n', heq, rfl⟩ | ⟨hnone, -⟩ := he
  · cases heq
    intro σ engine levels m hlevels
    obtain ⟨levels, rfl⟩ : ∃ i, levels = i + 1 := ⟨levels - 1, by omega⟩
    exact ⟨.int n, rfl, .inl ⟨hlegible, rfl⟩⟩
  · cases hnone

/-- A negative number, whose numeral stands behind a minus. -/
theorem negative {n : Integer} {k : Nat} (hn : n.toInt = -((k + 1 : Nat) : Int)) {e : Expr}
    (he : (∃ n, Integer.ofInt? (k + 1 : Nat) = some n ∧ e = .number n) ∨
      Integer.ofInt? (k + 1 : Nat) = none ∧ ∃ message, e = .error message) :
    Restores (.int n) (.unary .negate e) := by
  intro σ engine levels m hlevels
  have hlevels' : 1 < levels := hlevels
  obtain ⟨levels, rfl⟩ : ∃ i, levels = i + 2 := ⟨levels - 2, by omega⟩
  by_cases hfits : Integer.Fits (k + 1 : Nat)
  · obtain ⟨j, hj, hexact⟩ := Integer.ofInt?_of_fits hfits
    have hlegible : Legible (.int n) := by
      have hgreatest := hfits.2
      refine (legible_of_plain rfl).2 ?_
      simp only [isMisread, hn, decide_eq_false_iff_not]
      unfold Integer.least
      unfold Integer.greatest at hgreatest
      omega
    obtain ⟨j', heq, rfl⟩ | ⟨hnone, -⟩ := he
    · obtain rfl : j = j' := Option.some.inj (hj.symm.trans heq)
      refine ⟨Value.unary .negate (.int j), rfl, .inl ⟨hlegible, ?_⟩⟩
      rw [negate_int, hexact, ← hn, Integer.ofInt?_toInt]
    · rw [hj] at hnone
      cases hnone
  -- only the numeral of the least number does not fit
  · have hillegible : ¬ Legible (.int n) := by
      have hleast : Integer.least ≤ n.toInt := Int64.le_toInt n
      intro hlegible
      have hne := (legible_of_plain rfl).1 hlegible
      simp only [isMisread, decide_eq_false_iff_not] at hne
      simp only [Integer.Fits, Integer.least, Integer.greatest] at hfits hleast hne
      omega
    obtain ⟨j, hj, -⟩ | ⟨-, message, rfl⟩ := he
    · rw [Integer.ofInt?_of_not_fits hfits] at hj
      cases hj
    · exact ⟨.error message, rfl, .inr ⟨hillegible, rfl⟩⟩

/-- A key in front of a value that ends with no range. -/
theorem pair (key : String) {v : Value} {e : Expr} (hv : v.isError = false)
    (hend : v.rangeEnd? = none) (he : Restores v e) :
    Restores (.pair (.str key) v) (.pair (.text key) e) := by
  intro σ engine n m hn
  have hn' : v.levels + 1 < n := hn
  obtain ⟨n, rfl⟩ : ∃ i, n = i + 2 := ⟨n - 2, by omega⟩
  obtain ⟨w, hw, hrestored⟩ := he σ engine (n + 1) m (by omega)
  have hkey : evalWithin engine (n + 1) (.text key) m = some (.str key, m) := rfl
  have hpair : evalWithin engine (n + 2) (.pair (.text key) e) m =
      if w.isError then some (w, m) else some (.pair (.str key) w, m) := by
    rw [evalWithin_succ]
    simp only [step, Eval.pair, Run.outcome_andThen, Run.outcome_eval, hkey, hw, Option.bind_some,
      Run.outcome_pure]
    rfl
  rw [hpair]
  rcases hrestored with ⟨hlegible, rfl⟩ | ⟨hillegible, herror⟩
  · rw [hv]
    exact ⟨_, rfl, .inl ⟨legible_pair.2 ⟨hend, hlegible⟩, rfl⟩⟩
  · rw [herror]
    exact ⟨w, rfl, .inr ⟨fun h => hillegible (legible_pair.1 h).2, herror⟩⟩

/-- Two ends with the dots of a range between them. -/
theorem evalWithin_range {σ : Type} {engine : Engine σ} {n : Nat} {m : Machine σ} {a b : Expr}
    {x y : Value} (ha : evalWithin engine n a m = some (x, m))
    (hb : evalWithin engine n b m = some (y, m)) :
    evalWithin engine (n + 1) (.binary .range a b) m = some (Value.binary .range x y, m) := by
  rw [evalWithin_succ]
  simp only [step, Eval.binary, reduceCtorEq, if_false, Run.outcome_bind, Run.outcome_eval, ha, hb,
    Option.bind_some, Run.outcome_pure]

/-- The dots of a range behind a value. They make a range only of a number. -/
theorem range {v : Value} {n : Integer} (hend : v.rangeEnd? = some n) {a b : Expr}
    (ha : Restores v.front a) (hb : Restores (.int n) b) : Restores v (.binary .range a b) := by
  intro σ engine levels m hlevels
  obtain ⟨hfront, hone⟩ := levels_front hend
  obtain ⟨levels, rfl⟩ : ∃ i, levels = i + 1 := ⟨levels - 1, by omega⟩
  obtain ⟨x, hx, hrestoredx⟩ := ha σ engine levels m (by omega)
  obtain ⟨y, hy, hrestoredy⟩ := hb σ engine levels m (show 1 < levels by omega)
  refine ⟨_, evalWithin_range hx hy, ?_⟩
  cases v with
  | range r =>
    cases hend
    exact hrestoredx.range hrestoredy
  -- what stands in front of the dots is a pair, if it is no error
  | pair key value =>
    refine .inr ⟨not_legible_pair hend, ?_⟩
    rcases hrestoredx with ⟨-, rfl⟩ | ⟨-, herror⟩
    · rcases hrestoredy with ⟨-, rfl⟩ | ⟨-, herror⟩
      · rfl
      · exact isError_binary_range (.inr herror)
    · exact isError_binary_range (.inl herror)
  | _ => cases hend

/-- The values of elements up to the first error. -/
theorem values {σ : Type} (engine : Engine σ) {elements : List Value} {es : List Expr}
    (helements : ∀ v ∈ elements, v.isError = false) (hes : List.Forall₂ Restores elements es)
    {n : Nat} (hn : levelsOfAll elements < n) (m : Machine σ) :
    ∃ r, (Run.valuesOrError es).outcome engine.patience (evalWithin engine n) m = some (r, m) ∧
      (((∀ v ∈ elements, v.Legible) ∧ r = .ok elements) ∨
        (¬ (∀ v ∈ elements, v.Legible) ∧ ∃ w, r = .error w ∧ w.isError = true)) := by
  induction hes with
  | nil => exact ⟨.ok [], rfl, .inl ⟨nofun, rfl⟩⟩
  | @cons v e elements es he hes ih =>
    obtain ⟨hv, hvs⟩ := List.forall_mem_cons.1 helements
    rw [levelsOfAll] at hn
    obtain ⟨w, hw, hrestored⟩ := he σ engine n m (by omega)
    obtain ⟨r, hr, hothers⟩ := ih hvs (by omega)
    simp only [List.forall_mem_cons]
    rw [Run.outcome_valuesOrError_cons, hw, Option.bind_some]
    rcases hrestored with ⟨hlegible, rfl⟩ | ⟨hillegible, herror⟩
    · rw [hv, if_neg Bool.false_ne_true, hr, Option.bind_some]
      rcases hothers with ⟨hall, rfl⟩ | ⟨hnot, x, rfl, hx⟩
      · exact ⟨_, rfl, .inl ⟨⟨hlegible, hall⟩, rfl⟩⟩
      · exact ⟨_, rfl, .inr ⟨fun h => hnot h.2, x, rfl, hx⟩⟩
    · rw [herror, if_pos rfl]
      exact ⟨_, rfl, .inr ⟨fun h => hillegible h.1, w, rfl, herror⟩⟩

/-- An array with the aliases of its elements. -/
theorem array {elements : List Value} {keys : Option Aliases} {es : List Expr}
    (hkeys : (Items.mk elements keys).Faithful) (helements : ∀ v ∈ elements, v.isError = false)
    (hes : List.Forall₂ Restores elements es) : Restores (.array elements keys) (.array es) := by
  intro σ engine n m hn
  have hn' : levelsOfAll elements + 1 < n := hn
  obtain ⟨n, rfl⟩ : ∃ i, n = i + 1 := ⟨n - 1, by omega⟩
  obtain ⟨r, hr, hvalues⟩ := values engine helements hes (show _ < n by omega) m
  rw [evalWithin_succ]
  simp only [step, Run.outcome_andThenAll, hr, Option.bind_some, Restored, legible_array]
  rcases hvalues with ⟨hall, rfl⟩ | ⟨hnot, w, rfl, hw⟩
  · refine ⟨_, rfl, .inl ⟨hall, ?_⟩⟩
    have hkeys' : keys = Aliases.ofElements elements :=
      hkeys.trans (Aliases.ofElements_eq_expected elements).symm
    rw [hkeys']
    rfl
  · exact ⟨w, rfl, .inr ⟨hnot, hw⟩⟩

end Restores

/-! ## Reading and evaluating -/

theorem number_readsAs (n : Integer) : ReadsAs .pair n.words (Restores (.int n)) := by
  unfold Integer.words
  cases hn : n.toInt with
  | ofNat k =>
    have hnumeral := (ReadsAs.numeral k).unary_of_leaf (.inl rfl)
    exact hnumeral.pair_of_unary.imp fun e he => .natural hn he
  | negSucc k =>
    have hnumeral := (ReadsAs.numeral (k + 1)).unary_of_leaf (.inl rfl)
    refine hnumeral.negated.pair_of_unary.imp ?_
    rintro e ⟨f, hf, rfl⟩
    exact .negative hn hf

/-- A value is read whole, if what it is written with in front of a range can be read. -/
theorem readsAs_whole {v : Value} (h : v.Data)
    (hfront : ReadsAs .pair v.front.words (Restores v.front)) :
    ReadsAs .conditional v.words (Restores v) := by
  obtain ⟨w, rest, hwords, hw⟩ := h.words_begin
  have hequality : ReadsAs .equality v.words (Restores v) := by
    rw [words_eq]
    cases hend : v.rangeEnd? with
    | none =>
      rw [front_of_rangeEnd?_eq_none hend] at hfront ⊢
      rw [List.append_nil]
      exact hfront.equality_of_pair
    | some n =>
      refine (hfront.range (number_readsAs n)).imp ?_
      rintro e ⟨a, b, ha, hb, rfl⟩
      exact .range hend ha hb
  rw [hwords] at hequality ⊢
  exact hequality.conditional_of_equality (begins_ne hw).2.2.2.1

theorem readsAs_front {v : Value} (h : v.Data) :
    ReadsAs .pair v.front.words (Restores v.front) := by
  induction h with
  | int n => exact number_readsAs n
  | str s =>
    have hstring := ((ReadsAs.string s).unary_of_leaf (.inr (.inl rfl))).pair_of_unary
    refine hstring.imp ?_
    rintro e rfl
    exact .str s
  | range r => exact number_readsAs r.lower
  | @pair key v hv ih =>
    refine (ih.keyed key).imp ?_
    rintro e ⟨f, hf, rfl⟩
    exact .pair key hv.front.not_error v.rangeEnd?_front hf
  | @array elements keys hkeys helements ih =>
    have harray := ReadsAs.array (fun v hv => (helements v hv).words_begin)
      fun v hv => readsAs_whole (helements v hv) (ih v hv)
    refine (harray.unary_of_leaf (.inr (.inr rfl))).pair_of_unary.imp ?_
    rintro e ⟨es, hes, rfl⟩
    exact .array hkeys (fun v hv => (helements v hv).not_error) hes

/-- The text of a value inside another is read as what restores the value. -/
theorem restores_text {v : Value} (h : v.Data)
    (hquotable : ∀ w : Value, w.Occurs v → w.isQuotable = true) :
    Restores v (Script.ofText (v.textWithin true)).root := by
  have hshows := h.shows hquotable [] nofun
  have hreads := readsAs_whole h (readsAs_front h)
  obtain ⟨w, rest, hwords, hw⟩ := h.words_begin
  rw [hwords] at hshows hreads
  exact hreads.parse hw hshows

/-! ## Deferred variables -/

section

variable {σ : Type} (engine : Engine σ) {v : Value} {name : String} {m : Machine σ}

theorem evalWithin_var (h : v.Data) (hlookup : m.context.lookup name = some v) (n : Nat) :
    evalWithin engine (n + 1) (.var name) m = some (v, m) := by
  rw [evalWithin_succ]
  simp only [step, readVar, Run.outcome_bind, Run.outcome_lookup, Option.bind_some, hlookup]
  cases h <;> rfl

/-- A variable that holds a value gives the text of the value, unless the value is a string. -/
theorem evalWithin_deferred (h : v.Data) (hstr : v.str? = none)
    (hlookup : m.context.lookup name = some v) (n : Nat) :
    evalWithin engine (n + 2) (.defer (.var name)) m = some (.expression v.text, m) := by
  have hheld : (heldText? (.var name) : Run σ (Option String)).outcome engine.patience
      (evalWithin engine (n + 1)) m = some (none, m) := by
    simp only [heldText?, Run.outcome_bind, Run.outcome_lookup, Option.bind_some, hlookup]
    cases h <;> rfl
  rw [evalWithin_succ]
  simp only [step, defer, Run.outcome_bind, hheld, Option.bind_some, Run.outcome_eval,
    evalWithin_var engine h hlookup, Run.outcome_pure]
  cases h with
  | str s => cases hstr
  | _ => rfl

end

theorem same_of_error {v w : Value} (hw : w.isError = true) (hv : v.Data) : w.same v = false := by
  cases w with
  | error message => cases hv <;> rfl
  | _ => cases hw

/-- What a deferred variable gives is evaluated to the value of the variable, exactly if nothing in
that value is misread. This is about values whose strings can stand between quotes and whose texts
have fewer than 2 ^ 32 bytes, and with as many levels as the value has. -/
theorem deferred_values_are_restored {σ : Type} (engine : Engine σ) {v : Value} (hdata : v.Data)
    (hstr : v.str? = none) (hquotable : ∀ w : Value, w.Occurs v → w.isQuotable = true)
    (hsmall : v.text.utf8ByteSize < 2 ^ 32) {name : String} (hname : IsName name)
    (hshort : name.utf8ByteSize < 2 ^ 32 - 1) {m : Machine σ}
    (hlookup : m.context.lookup name = some v) (hlevels : v.levels ≤ engine.config.maxDepth) :
    run engine ("#" ++ name) m = some (.expression v.text, m) ∧
      ∃ w, run engine v.text m = some (w, m) ∧ (w.same v = true ↔ v.Legible) ∧
        (v.Legible → w = v) := by
  constructor
  · have hdepth : 1 ≤ v.levels := by
      cases hdata with
      | str s => cases hstr
      | range r => exact Nat.le_succ 1
      | _ => exact Nat.le_add_left 1 _
    obtain ⟨depth, hdepth'⟩ : ∃ i, engine.config.maxDepth = i + 1 :=
      ⟨engine.config.maxDepth - 1, by omega⟩
    have hsize : ("#" ++ name).utf8ByteSize < 2 ^ 32 := by
      have hmark : "#".utf8ByteSize = 1 := rfl
      rw [String.utf8ByteSize_append, hmark]
      omega
    rw [run, Evaluator.text, Script.parse_of_small hsize, parse_deferred hname, Option.bind_some]
    unfold eval
    rw [hdepth']
    exact evalWithin_deferred engine hdata hstr hlookup depth
  · -- only a string alone is written without its quotes
    have htext : v.text = v.textWithin true := by
      cases hdata with
      | str s => cases hstr
      | _ => simp only [Value.text, textWithin]
    obtain ⟨w, hw, hrestored⟩ := restores_text hdata hquotable σ engine
      (engine.config.maxDepth + 1) m (Nat.lt_succ_of_le hlevels)
    rw [run, Evaluator.text, Script.parse_of_small hsmall, htext]
    refine ⟨w, hw, ?_⟩
    rcases hrestored with ⟨hlegible, rfl⟩ | ⟨hillegible, herror⟩
    · exact ⟨iff_of_true (same_refl w) hlegible, fun _ => rfl⟩
    · refine ⟨iff_of_false ?_ hillegible, fun h => absurd h hillegible⟩
      rw [same_of_error herror hdata]
      exact Bool.false_ne_true

/-- The machine on which `x` holds a value. -/
def holding (v : Value) : Machine (List Integer) := ⟨⟨[], ⟨[("X", v)]⟩⟩, .empty, ⟨[], []⟩⟩

/-- Numbers with a sign, a backslash in a string, and an array with a range behind a key. -/
theorem a_nested_array_is_restored :
    let v := Value.ofList [.int (-5), .str "b\\c",
      .pair (.str "Key") (.ofList [.range ⟨1, -3⟩, .int 0])]
    run ⟨.standard, .queue, 1⟩ "#x" (holding v) = some (.expression v.text, holding v) ∧
      v.text = "[-5, \"b\\c\", \"Key\": [1..-3, 0]]" ∧
      run ⟨.standard, .queue, 1⟩ v.text (holding v) = some (v, holding v) := by
  intro v
  have hdata : v.Data := by
    refine .array (Items.faithful_ofList _) (List.forall_mem_cons.2 ⟨.int _, List.forall_mem_cons.2
      ⟨.str _, List.forall_mem_singleton.2 (.pair _ (.array (Items.faithful_ofList _) ?_))⟩⟩)
    exact List.forall_mem_cons.2 ⟨.range _, List.forall_mem_singleton.2 (.int _)⟩
  have hparts : ∀ w : Value, w.Occurs v → w.isQuotable = true ∧ w.isMisread = false := by
    refine forall_occurs_array.2 ⟨by decide, List.forall_mem_cons.2 ⟨?_, List.forall_mem_cons.2
      ⟨?_, List.forall_mem_singleton.2 (forall_occurs_pair.2 ⟨by decide, ?_, ?_⟩)⟩⟩⟩
    · exact (forall_occurs_plain rfl).2 (by decide)
    · exact (forall_occurs_plain rfl).2 (by decide)
    · exact (forall_occurs_plain rfl).2 (by decide)
    · refine forall_occurs_array.2 ⟨by decide, List.forall_mem_cons.2 ⟨?_, ?_⟩⟩
      · exact (forall_occurs_plain rfl).2 (by decide)
      · exact List.forall_mem_singleton.2 ((forall_occurs_plain rfl).2 (by decide))
  obtain ⟨hdeferred, w, hrun, -, hrestored⟩ := deferred_values_are_restored ⟨.standard, .queue, 1⟩
    hdata rfl (fun w hw => (hparts w hw).1) (by decide +kernel)
    (show IsName "x" by decide +kernel) (by decide)
    (show (holding v).context.lookup "x" = some v from rfl) (by decide)
  rw [hrestored fun w hw => (hparts w hw).2] at hrun
  exact ⟨hdeferred, by decide +kernel, hrun⟩

/-- The least number, a range behind a key, and a quote in a string: the variable is deferred to a
text that comes to an error. -/
theorem deferred_values_may_be_lost :
    let least := Value.int Int64.minValue
    let ranged := Value.ofList [.pair (.str "a") (.range ⟨1, 3⟩)]
    let quoted := Value.ofList [.str "a\"b"]
    let deferred (v : Value) :=
      (run ⟨.standard, .queue, 1⟩ "#x" (holding v)).map fun r => r.1.text
    let evaluated (v : Value) :=
      (run ⟨.standard, .queue, 1⟩ v.text (holding v)).map fun r => (r.1.text, r.1.same v)
    (least.Data ∧ deferred least = some "`-9223372036854775808`" ∧ evaluated least =
        some ("integer literal is too large: `- 9223372036854775808`", false)) ∧
      (ranged.Data ∧ deferred ranged = some "`[\"a\": 1..3]`" ∧
        evaluated ranged = some ("cannot apply '..' to pair and integer", false)) ∧
      (quoted.Data ∧ deferred quoted = some "`[\"a\"b\"]`" ∧ evaluated quoted =
        some ("expected ',' or ']' in array: `[ \"a\" b \"]`", false)) := by
  intro least ranged quoted deferred evaluated
  have hranged : ranged.Data :=
    .array (Items.faithful_ofList _) (List.forall_mem_singleton.2 (.pair "a" (.range _)))
  have hquoted : quoted.Data :=
    .array (Items.faithful_ofList _) (List.forall_mem_singleton.2 (.str _))
  exact ⟨⟨.int _, by decide +kernel⟩, ⟨hranged, by decide +kernel⟩, hquoted, by decide +kernel⟩

end Eval

end DiceScript
