import DiceScript.Proofs.Eval.Outcome
import DiceScript.Proofs.Grammar.Mistakes.Rules
import DiceScript.Proofs.Grammar.RoundTrip
import DiceScript.Proofs.Integer

/-!
Expressions as they are written, read and evaluated. What is written with operators and parentheses
is read back as the expression it was written for, and arithmetic on numbers comes to the exact
result, or to an error where a number on the way does not fit.
-/

namespace DiceScript

namespace Eval

open Integer

/-! ## Exact results -/

/-- The arithmetic operators. -/
def isArithmetic : BinaryOp → Bool
  | .add | .subtract | .multiply | .divide | .remainder => true
  | _ => false

/-- The result of an arithmetic operator on numbers without bounds. Quotients are rounded toward
zero. -/
def exactly : BinaryOp → Int → Int → Int
  | .add, x, y => x + y
  | .subtract, x, y => x - y
  | .multiply, x, y => x * y
  | .divide, x, y => x.tdiv y
  | .remainder, x, y => x.tmod y
  | _, _, _ => 0

/-- The result of an arithmetic operator is there and fits. For a remainder the quotient fits
too. -/
structure Succeeds (op : BinaryOp) (x y : Int) : Prop where
  divisor : op = .divide ∨ op = .remainder → y ≠ 0
  quotient : op = .remainder → Fits (x.tdiv y)
  result : Fits (exactly op x y)

/-- Expressions of numbers that are not negative, negation and arithmetic. -/
inductive Arithmetic : Expr → Prop
  | number {n : Integer} (hn : 0 ≤ n) : Arithmetic (.number n)
  | negate {e : Expr} (he : Arithmetic e) : Arithmetic (.unary .negate e)
  | binary {op : BinaryOp} {a b : Expr} (hop : isArithmetic op = true) (ha : Arithmetic a)
      (hb : Arithmetic b) : Arithmetic (.binary op a b)

/-- The value of an expression of arithmetic in numbers without bounds. -/
def exactValue : Expr → Int
  | .number n => n.toInt
  | .unary _ e => -exactValue e
  | .binary op a b => exactly op (exactValue a) (exactValue b)
  | _ => 0

/-- Every result on the way to the value of an expression of arithmetic is there and fits. -/
def Fitting : Expr → Prop
  | .unary _ e => Fitting e ∧ Fits (-exactValue e)
  | .binary op a b => Fitting a ∧ Fitting b ∧ Succeeds op (exactValue a) (exactValue b)
  | _ => True

/-- The number of levels below the root of an expression of arithmetic. -/
def height : Expr → Nat
  | .unary _ e => height e + 1
  | .binary _ a b => max (height a) (height b) + 1
  | _ => 0

/-- The value is the exact one if all results fit, and an error otherwise. -/
structure Computes (e : Expr) (v : Value) : Prop where
  exact : Fitting e → ∃ n : Integer, v = .int n ∧ n.toInt = exactValue e
  error : ¬Fitting e → ∃ message, v = .error message

/-! ## Operators on integers -/

theorem calculate_of_succeeds {op : BinaryOp} {m n : Integer} (hop : isArithmetic op = true)
    (h : Succeeds op m.toInt n.toInt) :
    ∃ r, Value.calculate op m n = .ok r ∧ r.toInt = exactly op m.toInt n.toInt := by
  obtain ⟨r, hr, hexact⟩ := ofInt?_of_fits h.result
  refine ⟨r, ?_, hexact⟩
  cases op
  case add => simp only [Value.calculate, add?, show ofInt? (m.toInt + n.toInt) = some r from hr]
  case subtract =>
    simp only [Value.calculate, sub?, show ofInt? (m.toInt - n.toInt) = some r from hr]
  case multiply =>
    simp only [Value.calculate, mul?, show ofInt? (m.toInt * n.toInt) = some r from hr]
  case divide =>
    have hn : n ≠ 0 := (ne_zero_iff n).mpr (h.divisor (.inl rfl))
    simp only [Value.calculate, if_neg hn, div?,
      show ofInt? (m.toInt.tdiv n.toInt) = some r from hr]
  case remainder =>
    have hn : n ≠ 0 := (ne_zero_iff n).mpr (h.divisor (.inr rfl))
    obtain ⟨k, hk, -⟩ := ofInt?_of_fits (h.quotient rfl)
    simp only [Value.calculate, if_neg hn, rem?, div?, hk, Option.bind_some,
      show ofInt? (m.toInt.tmod n.toInt) = some r from hr]
  all_goals cases hop

theorem calculate_of_not_succeeds {op : BinaryOp} {m n : Integer} (hop : isArithmetic op = true)
    (h : ¬Succeeds op m.toInt n.toInt) : ∃ f, Value.calculate op m n = .error f := by
  -- where the operands are right, it is the result that does not fit
  have hbounds : ∀ hdivisor hquotient, ofInt? (exactly op m.toInt n.toInt) = none :=
    fun hdivisor hquotient =>
      ofInt?_of_not_fits fun hresult => h ⟨hdivisor, hquotient, hresult⟩
  have htotal : op ≠ .divide → op ≠ .remainder → ofInt? (exactly op m.toInt n.toInt) = none :=
    fun hdivide hremainder =>
      hbounds (fun hop => absurd hop (not_or.2 ⟨hdivide, hremainder⟩)) (absurd · hremainder)
  cases op
  case add =>
    have hnone : ofInt? (m.toInt + n.toInt) = none := htotal (by decide) (by decide)
    simp only [Value.calculate, add?, hnone]
    exact ⟨_, rfl⟩
  case subtract =>
    have hnone : ofInt? (m.toInt - n.toInt) = none := htotal (by decide) (by decide)
    simp only [Value.calculate, sub?, hnone]
    exact ⟨_, rfl⟩
  case multiply =>
    have hnone : ofInt? (m.toInt * n.toInt) = none := htotal (by decide) (by decide)
    simp only [Value.calculate, mul?, hnone]
    exact ⟨_, rfl⟩
  case divide =>
    by_cases hn : n = 0
    · exact ⟨.divisionByZero, by simp only [Value.calculate, if_pos hn]⟩
    · have hnone : ofInt? (m.toInt.tdiv n.toInt) = none :=
        hbounds (fun _ => (ne_zero_iff n).mp hn) (absurd · (by decide))
      simp only [Value.calculate, if_neg hn, div?, hnone]
      exact ⟨_, rfl⟩
  case remainder =>
    by_cases hn : n = 0
    · exact ⟨.divisionByZero, by simp only [Value.calculate, if_pos hn]⟩
    · by_cases hquotient : Fits (m.toInt.tdiv n.toInt)
      · have hnone : ofInt? (m.toInt.tmod n.toInt) = none :=
          hbounds (fun _ => (ne_zero_iff n).mp hn) (fun _ => hquotient)
        obtain ⟨k, hk, -⟩ := ofInt?_of_fits hquotient
        simp only [Value.calculate, if_neg hn, rem?, div?, hk, Option.bind_some, hnone]
        exact ⟨_, rfl⟩
      -- a remainder is refused where its quotient does not fit, though it would fit itself
      · simp only [Value.calculate, if_neg hn, rem?, div?, ofInt?_of_not_fits hquotient,
          Option.bind_none]
        exact ⟨_, rfl⟩
  all_goals cases hop

theorem negate_int (n : Integer) :
    Value.unary .negate (.int n) =
      match ofInt? (-n.toInt) with
      | some r => .int r
      | none => .fail (.notNegatable (Value.int n).kind) := rfl

/-- On two integers an arithmetic operator is a calculation. -/
theorem binary_int {op : BinaryOp} (hop : isArithmetic op = true) (m n : Integer) :
    Value.binary op (.int m) (.int n) =
      match Value.calculate op m n with
      | .ok r => .int r
      | .error f => .fail f := by
  cases op <;> first | rfl | cases hop

theorem binary_error_left {op : BinaryOp} (hop : isArithmetic op = true) (message : String)
    (b : Value) : Value.binary op (.error message) b = .error message := by
  cases op <;> first | rfl | cases hop

theorem binary_error_right {op : BinaryOp} (hop : isArithmetic op = true) (n : Integer)
    (message : String) : Value.binary op (.int n) (.error message) = .error message := by
  cases op <;> first | rfl | cases hop

/-! ## Computing -/

namespace Computes

theorem number (n : Integer) : Computes (.number n) (.int n) where
  exact := fun _ => ⟨n, rfl, rfl⟩
  error := fun h => absurd trivial h

theorem negate {e : Expr} {v : Value} (h : Computes e v) :
    Computes (.unary .negate e) (Value.unary .negate v) := by
  by_cases hfitting : Fitting e
  · obtain ⟨n, rfl, hn⟩ := h.exact hfitting
    by_cases hfits : Fits (-exactValue e)
    · obtain ⟨r, hr, hexact⟩ := ofInt?_of_fits hfits
      rw [negate_int, hn, hr]
      exact ⟨fun _ => ⟨r, rfl, hexact⟩, fun hnot => absurd ⟨hfitting, hfits⟩ hnot⟩
    · rw [negate_int, hn, ofInt?_of_not_fits hfits]
      exact ⟨fun hall => absurd hall.2 hfits, fun _ => ⟨_, rfl⟩⟩
  · obtain ⟨message, rfl⟩ := h.error hfitting
    exact ⟨fun hall => absurd hall.1 hfitting, fun _ => ⟨message, rfl⟩⟩

theorem binary {op : BinaryOp} {a b : Expr} {v w : Value} (hop : isArithmetic op = true)
    (ha : Computes a v) (hb : Computes b w) :
    Computes (.binary op a b) (Value.binary op v w) := by
  by_cases hleft : Fitting a
  · obtain ⟨m, rfl, hm⟩ := ha.exact hleft
    by_cases hright : Fitting b
    · obtain ⟨n, rfl, hn⟩ := hb.exact hright
      rw [binary_int hop]
      by_cases hgoes : Succeeds op m.toInt n.toInt
      · obtain ⟨r, hr, hexact⟩ := calculate_of_succeeds hop hgoes
        rw [hm, hn] at hgoes hexact
        rw [hr]
        exact ⟨fun _ => ⟨r, rfl, hexact⟩, fun hnot => absurd ⟨hleft, hright, hgoes⟩ hnot⟩
      · obtain ⟨f, hf⟩ := calculate_of_not_succeeds hop hgoes
        rw [hm, hn] at hgoes
        rw [hf]
        exact ⟨fun hall => absurd hall.2.2 hgoes, fun _ => ⟨f.message, rfl⟩⟩
    -- of two errors the left one counts, so here the left side is a number
    · obtain ⟨message, rfl⟩ := hb.error hright
      rw [binary_error_right hop]
      exact ⟨fun hall => absurd hall.2.1 hright, fun _ => ⟨message, rfl⟩⟩
  · obtain ⟨message, rfl⟩ := ha.error hleft
    rw [binary_error_left hop]
    exact ⟨fun hall => absurd hall.1 hleft, fun _ => ⟨message, rfl⟩⟩

end Computes

theorem isArithmetic_ne_getBonus {op : BinaryOp} (h : isArithmetic op = true) : op ≠ .getBonus := by
  rintro rfl
  cases h

/-- Arithmetic that is not higher than the levels left computes its value and changes nothing. -/
theorem Arithmetic.computes {σ : Type} (engine : Engine σ) {e : Expr} (h : Arithmetic e) {n : Nat}
    (hn : height e ≤ n) (m : Machine σ) :
    ∃ v, evalWithin engine (n + 1) e m = some (v, m) ∧ Computes e v := by
  induction h generalizing n with
  | @number k _ => exact ⟨.int k, rfl, .number k⟩
  -- an operand is asked for one level deeper, and there it has one level less of its own
  | @negate e he ih =>
    rw [height] at hn
    obtain ⟨n, rfl⟩ : ∃ i, n = i + 1 := ⟨n - 1, by omega⟩
    obtain ⟨v, hv, hcomputes⟩ := ih (n := n) (by omega)
    refine ⟨Value.unary .negate v, ?_, hcomputes.negate⟩
    simp only [evalWithin_succ m engine (n + 1), step, Run.outcome_bind, Run.outcome_eval, hv,
      Option.bind_some, Run.outcome_pure]
  | @binary op a b hop ha hb iha ihb =>
    rw [height] at hn
    obtain ⟨n, rfl⟩ : ∃ i, n = i + 1 := ⟨n - 1, by omega⟩
    obtain ⟨v, hv, hleft⟩ := iha (n := n) (by omega)
    obtain ⟨w, hw, hright⟩ := ihb (n := n) (by omega)
    refine ⟨Value.binary op v w, ?_, hleft.binary hop hright⟩
    simp only [evalWithin_succ m engine (n + 1), step, Eval.binary,
      if_neg (isArithmetic_ne_getBonus hop), Run.outcome_bind, Run.outcome_eval, hv, hw,
      Option.bind_some, Run.outcome_pure]

/-! ## From texts to values -/

/-- An expression of numbers, variables, operators and conditions can be written, and however it is
written with words and separators in fewer than 2 ^ 32 bytes, it is read back without a mistake. If
it is arithmetic and not higher than evaluation may nest, running the text computes its exact value,
or gives an error if a result on the way does not fit. -/
theorem what_is_written_is_read_and_computed {e : Expr} (h : Grammar.Plain e) :
    (∃ (ws : List Word) (text : String),
      Grammar.Printed .conditional e ws ∧ Token.Spaced ws text.toList) ∧
    ∀ (ws : List Word) (text : String), Grammar.Printed .conditional e ws →
      Token.Spaced ws text.toList → text.utf8ByteSize < 2 ^ 32 →
      Script.parse text = some ⟨e, []⟩ ∧
      (Arithmetic e → ∀ {σ : Type} (engine : Engine σ) (m : Machine σ),
        height e ≤ engine.config.maxDepth →
        ∃ v, run engine text m = some (v, m) ∧ Computes e v) := by
  constructor
  · obtain ⟨ws, hws⟩ := h.exists_printed .conditional
    refine ⟨ws, String.ofList (Token.spaced ws), hws, ?_⟩
    rw [String.toList_ofList]
    exact Token.spaced_shows ws
  · intro ws text hprinted htext hsmall
    have hparse : Script.parse text = some ⟨e, []⟩ := by
      rw [Script.parse_of_small hsmall, Grammar.parse_printed hprinted htext]
    refine ⟨hparse, fun harithmetic σ engine m hheight => ?_⟩
    obtain ⟨v, hv, hcomputes⟩ := harithmetic.computes engine hheight m
    exact ⟨v, Option.bind_eq_some_iff.2 ⟨_, hparse, hv⟩, hcomputes⟩

/-- A difference of a difference and a negative number, with parentheses that it does not need. -/
theorem a_difference_is_read_and_computed :
    Grammar.Plain (.binary .subtract (.binary .subtract (.number 8) (.number 3))
      (.unary .negate (.number 2))) ∧
    Script.parse " ( 8 - 3 ) - - 2" = some ⟨.binary .subtract
      (.binary .subtract (.number 8) (.number 3)) (.unary .negate (.number 2)), []⟩ ∧
    ∃ v, run ⟨.standard, Roller.queue, 0⟩ " ( 8 - 3 ) - - 2" ⟨.empty, .empty, ⟨[], []⟩⟩ =
        some (v, ⟨.empty, .empty, ⟨[], []⟩⟩) ∧
      Computes (.binary .subtract (.binary .subtract (.number 8) (.number 3))
        (.unary .negate (.number 2))) v := by
  have hplain : Grammar.Plain (.binary .subtract (.binary .subtract (.number 8) (.number 3))
      (.unary .negate (.number 2))) :=
    .joined .subtract (.joined .subtract (.number (by decide)) (.number (by decide)))
      (.unary .negate (.number (by decide)))
  have harithmetic : Arithmetic (.binary .subtract (.binary .subtract (.number 8) (.number 3))
      (.unary .negate (.number 2))) :=
    .binary rfl (.binary rfl (.number (by decide)) (.number (by decide)))
      (.negate (.number (by decide)))
  -- what is written: the inner difference in parentheses, and the negation without
  have hnumber : ∀ {n : Integer}, 0 ≤ n → ∀ l,
      Grammar.Printed l (.number n) [.numeral n.toInt.toNat] :=
    fun hn l => (Grammar.Printed.number hn).of_leaf l
  have hinner : Grammar.Printed .conditional (.binary .subtract (.number 8) (.number 3)) _ :=
    (Grammar.Printed.joined .subtract (hnumber (by decide) _)
      (hnumber (by decide) _)).to_conditional
  have hright : Grammar.Printed .product (.unary .negate (.number 2)) _ :=
    .looser (.looser (.unary .negate (hnumber (by decide) _)))
  have hprinted := (Grammar.Printed.joined .subtract
    ((Grammar.Printed.parentheses hinner).of_leaf .sum) hright).to_conditional
  obtain ⟨hparse, hrun⟩ := (what_is_written_is_read_and_computed hplain).2 _ " ( 8 - 3 ) - - 2"
    hprinted (Token.spaced_shows _) (by decide)
  exact ⟨hplain, hparse, hrun harithmetic _ _ (by decide)⟩

/-! ## A text whose places cannot be told apart -/

open Token

/-- The text `1 + 2` with some more blanks in front of the plus sign. -/
def wideSum (k : Nat) : List Char := '1' :: (List.replicate (k + 3) ' ' ++ ['+', ' ', '2'])

/-- Where the offsets start over behind the one, the two gets the text of a blank. -/
theorem scan_wideSum {k : Nat} (hk : UInt32.ofNat (k + 3) = 0) :
    scan (String.ofList (wideSum k)) = some ([⟨.integer, "1", ⟨.start, ⟨1, 1⟩⟩⟩,
      ⟨.plus, "+", ⟨⟨1, 1⟩, ⟨1, 2⟩⟩⟩, ⟨.integer, " ", ⟨⟨1, 3⟩, ⟨1, 4⟩⟩⟩],
      ⟨wideSum k, [], ⟨1, 4⟩⟩) := by
  have hblank : ∀ c ∈ List.replicate (k + 3) ' ', isSeparator c = true := fun c hc =>
    (List.eq_of_mem_replicate hc).symm ▸ rfl
  have hsection : (⟨wideSum k, [], ⟨1, 4⟩⟩ : Source).section? ⟨1, 3⟩ ⟨1, 4⟩ = some [' '] := by
    have hslice := Text.slice_append ['1', ' ', ' '] [' '] (List.replicate k ' ' ++ ['+', ' ', '2'])
    have hsize : 4 ≤ Text.size (wideSum k) :=
      Nat.le_trans (by simp [wideSum]) (Text.length_le_size _)
    rw [Source.section?, if_pos ⟨by decide, hsize⟩]
    exact congrArg some hslice
  have hone : next? '1' (.ofString (String.ofList (wideSum k))) =
      some (⟨.integer, "1", ⟨.start, ⟨1, 1⟩⟩⟩,
        ⟨wideSum k, List.replicate (k + 3) ' ' ++ ['+', ' ', '2'], ⟨1, 1⟩⟩) := by
    rw [Source.ofString_eq, String.toList_ofList]
    exact next?_plain (by decide) (by decide) (show 1 < 2 ^ 32 by decide)
  have hplus : next? '+' ⟨wideSum k, ['+', ' ', '2'], ⟨1, 1⟩⟩ =
      some (⟨.plus, "+", ⟨⟨1, 1⟩, ⟨1, 2⟩⟩⟩, ⟨wideSum k, [' ', '2'], ⟨1, 2⟩⟩) := by rfl
  have htwo : next? '2' ⟨wideSum k, ['2'], ⟨1, 3⟩⟩ =
      some (⟨.integer, " ", ⟨⟨1, 3⟩, ⟨1, 4⟩⟩⟩, ⟨wideSum k, [], ⟨1, 4⟩⟩) := by
    have hcut : next? '2' ⟨wideSum k, ['2'], ⟨1, 3⟩⟩ =
        cut? ⟨wideSum k, ['2'], ⟨1, 3⟩⟩ (fun _ => .integer) ⟨wideSum k, [], ⟨1, 4⟩⟩ := by rfl
    rw [hcut, cut?, hsection]
    rfl
  have hlength : (String.ofList (wideSum k)).toList.length =
      (List.replicate (k + 3) ' ').length + 3 + 1 := by
    simp [wideSum]
  have hrest : (Source.ofString (String.ofList (wideSum k))).rest =
    '1' :: (List.replicate (k + 3) ' ' ++ ['+', ' ', '2']) := by
    rw [Source.ofString, String.toList_ofList, wideSum]
  have hlast : scanFrom 1 ⟨wideSum k, ['2'], ⟨1, 3⟩⟩ =
      some ([⟨.integer, " ", ⟨⟨1, 3⟩, ⟨1, 4⟩⟩⟩], ⟨wideSum k, [], ⟨1, 4⟩⟩) :=
    scanFrom_token 0 rfl rfl htwo
  have hend : scanFrom 2 ⟨wideSum k, [' ', '2'], ⟨1, 2⟩⟩ =
      some ([⟨.integer, " ", ⟨⟨1, 3⟩, ⟨1, 4⟩⟩⟩], ⟨wideSum k, [], ⟨1, 4⟩⟩) :=
    (scanFrom_separators (List.forall_mem_singleton.2 rfl) 1 rfl).trans hlast
  rw [scan, hlength, scanFrom_token _ hrest rfl hone, scanFrom_separators hblank 3 rfl,
    advance_blanks _ hk, scanFrom_token 2 rfl rfl hplus, hend]
  rfl

theorem parse_wideSum {k : Nat} (hk : UInt32.ofNat (k + 3) = 0) :
    ∃ script, Script.parse (String.ofList (wideSum k)) = some script ∧
      script.mistakes = ["integer literal is too large: `1 +  `"] :=
  ⟨_, Script.parse_eq_some_iff.2 ⟨_, _, scan_wideSum hk, rfl, rfl⟩, rfl⟩

theorem spaced_wideSum (k : Nat) :
    Spaced [.numeral 1, .mark .plus, .numeral 2] (wideSum k) := by
  have hblank : ∀ c ∈ List.replicate (k + 3) ' ', isSeparator c = true := fun c hc =>
    (List.eq_of_mem_replicate hc).symm ▸ rfl
  have hparts : wideSum k =
      [] ++ ['1'] ++ (List.replicate (k + 3) ' ' ++ ['+'] ++ ([' '] ++ ['2'] ++ [])) := by
    simp [wideSum]
  have hnext : ∀ c ∈ some ' ', isSeparator c = true := fun _ hc => Option.some.inj hc ▸ rfl
  have htwo : Spaced [.numeral 2] ([' '] ++ ['2'] ++ []) :=
    .cons (List.forall_mem_singleton.2 rfl) nofun (.nil nofun)
  have hplus : Spaced [.mark .plus, .numeral 2]
      (List.replicate (k + 3) ' ' ++ ['+'] ++ ([' '] ++ ['2'] ++ [])) := .cons hblank hnext htwo
  rw [hparts]
  exact .cons (List.forall_mem_nil _) hnext hplus

/-- Where more than 2 ^ 32 bytes stand in front of a word, it may be misread: with that many blanks
behind the one, `1 + 2` is not read as the sum that is written, and is told to have a mistake. -/
theorem a_wide_gap_is_misread :
    Grammar.Plain (.binary .add (.number 1) (.number 2)) ∧
    Grammar.Printed .conditional (.binary .add (.number 1) (.number 2))
      [.numeral 1, .mark .plus, .numeral 2] ∧
    Spaced [.numeral 1, .mark .plus, .numeral 2] (String.ofList (wideSum 4294967293)).toList ∧
    ∃ script, Script.parse (String.ofList (wideSum 4294967293)) = some script ∧
      script.mistakes ≠ [] := by
  have hprinted : Grammar.Printed .sum (.binary .add (.number 1) (.number 2))
      ([.numeral 1] ++ .mark .plus :: [.numeral 2]) :=
    .joined .add ((Grammar.Printed.number (by decide)).of_leaf _)
      ((Grammar.Printed.number (by decide)).of_leaf _)
  refine ⟨.joined .add (.number (by decide)) (.number (by decide)), hprinted.to_conditional, ?_, ?_⟩
  · rw [String.toList_ofList]
    exact spaced_wideSum _
  · obtain ⟨script, hscript, hmistakes⟩ := parse_wideSum (k := 4294967293) (by decide)
    exact ⟨script, hscript, by rw [hmistakes]; nofun⟩

end Eval

end DiceScript
