import DiceScript.Proofs.Dice.Roll
import DiceScript.Proofs.Eval.Requests
import DiceScript.Proofs.Grammar.Dice

/-!
Dice in scripts follow their rule. No literal asks for so many dice that their sum would not fit, so
every roll has its exact total. Dice of which only some are kept are rolled again and again when
they are multiplied or divided, and the rolls are added up until the sum does not fit.
-/

namespace DiceScript

open Integer

variable {σ : Type}

/-! ## Dice of scripts -/

/-- The faces of the dice of a script add up to a number that fits. -/
theorem Grammar.dice_fit {text : String} {script : Script}
    (hparse : Script.parse text = some script) {spec : DiceSpec}
    (h : .dice spec ∈ script.root.nodes) :
    (spec.count.toNat * spec.sides.toNat : Int) ≤ greatest := by
  obtain ⟨l, hlength, rfl⟩ := dice_nodes hparse h
  have hproduct : l.spec.count.toNat * l.spec.sides.toNat ≤ 10 ^ 15 :=
    l.faces_le.trans (Nat.pow_le_pow_right (by decide) hlength)
  have hgreatest : (10 ^ 15 : Int) ≤ greatest := by decide
  exact le_trans (by exact_mod_cast hproduct) hgreatest

/-! ## Rolls one after another -/

namespace Eval

open DiceSpec

/-- What it comes to to roll dice some number of times and add up, from a start: all rolls are made
and their sum fits at every step, or the sum of those that were made is the first that does not. -/
inductive Repeats (roller : Roller σ) (spec : DiceSpec) (times : Nat) (start : Integer)
    (before : Tray σ) : Value → Tray σ → Prop
  | all {rolls : List DiceRoll} {after : Tray σ} {sum : Integer}
      (hrolls : Rolls roller spec before rolls after) (hlength : rolls.length = times)
      (hfits : ∀ front, front <+: rolls → Fits (start.toInt + sumOf front))
      (hsum : sum.toInt = start.toInt + sumOf rolls) :
      Repeats roller spec times start before (.int sum) after
  | stopped {rolls : List DiceRoll} {after : Tray σ}
      (hrolls : Rolls roller spec before rolls after) (hlength : rolls.length ≤ times)
      (hfits : ∀ front, front <+: rolls → front ≠ rolls → Fits (start.toInt + sumOf front))
      (hsum : ¬ Fits (start.toInt + sumOf rolls)) :
      Repeats roller spec times start before (.fail (.repeatOverflow spec.text)) after

variable {roller : Roller σ} {spec : DiceSpec} {times : Nat} {start next : Integer}
  {before middle after : Tray σ} {roll : DiceRoll} {result : Value}

theorem sumOf_cons (roll : DiceRoll) (rolls : List DiceRoll) :
    sumOf (roll :: rolls) = roll.total.toInt + sumOf rolls := rfl

/-- One more roll in front. -/
theorem Repeats.cons (hroll : Rolled roller spec before roll middle)
    (hnext : next.toInt = start.toInt + roll.total.toInt)
    (h : Repeats roller spec times next middle result after) :
    Repeats roller spec (times + 1) start before result after := by
  have hfits : ∀ {rolls front : List DiceRoll}, front <+: roll :: rolls →
      (∀ later, later <+: rolls → front = roll :: later → Fits (next.toInt + sumOf later)) →
      Fits (start.toInt + sumOf front) := by
    intro rolls front hfront hlater
    rcases List.prefix_cons_iff.1 hfront with rfl | ⟨later, rfl, hprefix⟩
    · simpa [sumOf] using fits_toInt start
    · rw [sumOf_cons, ← add_assoc, ← hnext]
      exact hlater later hprefix rfl
  cases h with
  | all hrolls hlength hpartial hsum =>
    refine .all (.cons hroll hrolls) (congrArg (· + 1) hlength) (fun front hfront => ?_) ?_
    · exact hfits hfront fun later hprefix _ => hpartial later hprefix
    · rw [hsum, hnext, sumOf_cons, add_assoc]
  | stopped hrolls hlength hpartial hsum =>
    refine .stopped (.cons hroll hrolls) (Nat.succ_le_succ hlength) (fun front hfront hne => ?_) ?_
    · refine hfits hfront fun later hprefix heq => hpartial later hprefix ?_
      rintro rfl
      exact hne heq
    · rwa [sumOf_cons, ← add_assoc, ← hnext]

/-- Dice that come to a roll from every tray. -/
def CanRoll (roller : Roller σ) (spec : DiceSpec) : Prop :=
  ∀ before, ∃ roll after, spec.roll? roller before = (some roll, after) ∧
    Rolled roller spec before roll after

variable {m : Machine σ}

/-- The value of dice is the total of a roll. -/
theorem outcome_roll (hroll : CanRoll roller spec) (p : Nat) (eval : Evaluator σ)
    (m : Machine σ) :
    ∃ roll after, spec.roll? roller m.tray = (some roll, after) ∧
      Rolled roller spec m.tray roll after ∧
      (Eval.roll roller spec).outcome p eval m =
        some (.int roll.total, { m with tray := after }) := by
  obtain ⟨roll, after, hrolled, hrule⟩ := hroll m.tray
  refine ⟨roll, after, hrolled, hrule, ?_⟩
  simp only [Eval.roll, Run.outcome_bind, Run.outcome_withTray, Option.bind_some, hrolled,
    Run.outcome_pure]

theorem outcome_rollTimes (hroll : CanRoll roller spec) (p : Nat) (eval : Evaluator σ)
    (times : Nat) (start : Integer) (m : Machine σ) :
    ∃ result after, Repeats roller spec times start m.tray result after ∧
      (rollTimes roller spec times start).outcome p eval m =
        some (result, { m with tray := after }) := by
  induction times generalizing start m with
  | zero =>
    refine ⟨.int start, m.tray, .all (.nil m.tray) rfl (fun front hfront => ?_) ?_, rfl⟩
    · rw [List.prefix_nil.1 hfront]
      simpa [sumOf] using fits_toInt start
    · simp [sumOf]
  | succ times ih =>
    obtain ⟨roll, middle, -, hrule, houtcome⟩ := outcome_roll hroll p eval m
    simp only [rollTimes, Run.outcome_bind, houtcome, Option.bind_some]
    cases hadd : Integer.add? start roll.total with
    | none =>
      refine ⟨_, middle, .stopped (.cons hrule (.nil middle)) (Nat.succ_le_succ (Nat.zero_le _))
        (fun front hfront hne => ?_) ?_, rfl⟩
      · rcases List.prefix_cons_iff.1 hfront with rfl | ⟨later, rfl, hlater⟩
        · simpa [sumOf] using fits_toInt start
        · rw [List.prefix_nil.1 hlater] at hne
          exact absurd rfl hne
      · intro hfits
        rw [sumOf_cons, sumOf, List.map_nil, List.sum_nil, add_zero] at hfits
        obtain ⟨sum, hsum⟩ := add?_of_fits hfits
        rw [hsum] at hadd
        cases hadd
    | some next =>
      obtain ⟨result, after, hrepeats, hrest⟩ := ih next { m with tray := middle }
      exact ⟨result, after, hrepeats.cons hrule (add?_eq_some_iff.1 hadd), hrest⟩

/-! ## Evaluation -/

/-- Dice of a script are rolled by their rule: their value is the total of a roll. Dice of which
only some are kept, multiplied or divided by a number that is not negative, are rolled as many times
one after another, and the value is the sum of the totals, or an error as soon as the sum does not
fit. -/
theorem dice_follow_their_rule (engine : Engine σ) (hfair : engine.roller.Fair) {text : String}
    {script : Script} (hparse : Script.parse text = some script) {spec : DiceSpec}
    (hspec : .dice spec ∈ script.root.nodes) (hsides : spec.sides ≠ 0) :
    (∀ n m, ∃ roll after, spec.roll? engine.roller m.tray = (some roll, after) ∧
      Rolled engine.roller spec m.tray roll after ∧
      Gives engine (n + 1) (.dice spec) m (.int roll.total, { m with tray := after })) ∧
    (spec.hasKeep = true → ∀ n op count m m₁ v times,
      Gives engine n count m (v, m₁) → v.int? = some times → 0 ≤ times →
      ∃ result after, Repeats engine.roller spec times.toInt.toNat 0 m₁.tray result after ∧
        Gives engine (n + 1) (.multiplied op (.dice spec) count) m
          (result, { m₁ with tray := after })) := by
  have hroll : CanRoll engine.roller spec :=
    fun before => roll?_rolled hfair hsides (Grammar.dice_fit hparse hspec) before
  refine ⟨fun n m => ?_, fun hkeep n op count m m₁ v times hcount hint hpos => ?_⟩
  · obtain ⟨roll, after, hrolled, hrule, houtcome⟩ :=
      outcome_roll hroll 0 (evalWithin (engine.withPatience 0) n) m
    exact ⟨roll, after, hrolled, hrule, gives_succ.2 ⟨0, houtcome⟩⟩
  · obtain ⟨result, after, hrepeats, houtcome⟩ := outcome_rollTimes hroll 0
      (evalWithin (engine.withPatience 0) n) times.toInt.toNat 0 m₁
    refine ⟨result, after, hrepeats, gives_succ.2 ?_⟩
    have hstep : step engine (.multiplied op (.dice spec) count) =
        Run.andThen (Run.eval count) (rollRepeated engine.roller spec) := if_pos hkeep
    rw [hstep]
    refine comes_ask.2 ⟨v, m₁, hcount, 0, ?_⟩
    -- a value that counts is no error
    have herror : v.isError = false := by
      cases v <;> first | rfl | cases hint
    simp only [Run.bind, herror, Bool.false_eq_true, if_false, rollRepeated, hint, if_pos hpos]
    exact houtcome

/-- Four dice, of which a one is rolled again and the best three are kept. -/
def ability : DiceSpec := ⟨4, 6, some 1, some 3, none⟩

/-- A machine with the answers for two abilities laid out. -/
def lucky : Machine (List Integer) :=
  { blankMachine with tray := ⟨[1, 5, 4, 6, 2, 3, 3, 3, 3], []⟩ }

/-- Two abilities are rolled one after the other, and come to fifteen and nine. -/
theorem two_abilities_come_to_twenty_four :
    (∃ roll after, ability.roll? .queue lucky.tray = (some roll, after) ∧
      Rolled .queue ability lucky.tray roll after) ∧
    ∃ after, Repeats .queue ability 2 0 lucky.tray (.int 24) after ∧
      Gives ⟨.standard, .queue, 1⟩ 2 (.multiplied .multiply (.dice ability) (.number 2)) lucky
        (.int 24, { lucky with tray := after }) := by
  have hread : Script.ofText "4d6r1h3 * 2" =
      ⟨.multiplied .multiply (.dice ability) (.number 2), []⟩ := by rfl
  have hparse : Script.parse "4d6r1h3 * 2" =
      some ⟨.multiplied .multiply (.dice ability) (.number 2), []⟩ := by
    rw [Script.parse_of_small (by decide), hread]
  have hspec : .dice ability ∈ (Expr.multiplied .multiply (.dice ability) (.number 2)).nodes := by
    simp [Expr.nodes]
  obtain ⟨honce, hrepeated⟩ := dice_follow_their_rule ⟨.standard, .queue, 1⟩ queue_fair hparse
    hspec (by decide)
  obtain ⟨roll, after, hroll, hrule, -⟩ := honce 1 lucky
  obtain ⟨result, after', hrepeats, hgives⟩ := hrepeated rfl 1 .multiply (.number 2) lucky lucky
    (.int 2) 2 ⟨0, rfl⟩ rfl (by decide)
  refine ⟨⟨roll, after, hroll, hrule⟩, after', ?_⟩
  have hseen : (evalWithin (Engine.withPatience ⟨.standard, .queue, 1⟩ 0) 2
      (.multiplied .multiply (.dice ability) (.number 2)) lucky).map Prod.fst =
        some (.int 24) := by rfl
  obtain ⟨r, hr, hsum⟩ := Option.map_eq_some_iff.1 hseen
  cases gives_unique hgives ⟨0, hr⟩
  obtain rfl : result = .int 24 := hsum
  exact ⟨hrepeats, hgives⟩

end Eval

end DiceScript
