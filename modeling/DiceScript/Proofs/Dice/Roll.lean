import DiceScript.Proofs.Eval.Requests
import DiceScript.Proofs.Sorting

/-!
What a roll of dice is. Each die asks once for a face, and once more if the face is low enough to be
rolled again; of the highest faces the lowest are kept, and their sum is the total. Rolls one after
another are added up as long as the sum fits.
-/

namespace DiceScript

variable {σ : Type}

/-! ## Requests one after another -/

/-- Requests made one after another. Each is answered by the roller as the one before it left it,
and noted in the tray. -/
inductive Roller.Asked (roller : Roller σ) : Tray σ → List Request → Tray σ → Prop
  | nothing (tray : Tray σ) : Asked roller tray [] tray
  | next {before after : Tray σ} {requests : List Request} (lower upper : Integer)
      (hrest : Asked roller (roller.ask lower upper before).2 requests after) :
      Asked roller before (⟨lower, upper, (roller.ask lower upper before).1⟩ :: requests) after

namespace Roller.Asked

variable {roller : Roller σ} {before middle after : Tray σ} {requests later : List Request}

theorem append (h : roller.Asked before requests middle) (h' : roller.Asked middle later after) :
    roller.Asked before (requests ++ later) after := by
  induction h with
  | nothing tray => exact h'
  | next lower upper _ ih => exact .next lower upper (ih h')

theorem noted (h : roller.Asked before requests after) :
    after.requests = requests.reverse ++ before.requests := by
  induction h with
  | nothing tray => rfl
  | next lower upper _ ih =>
    rw [ih, List.reverse_cons, List.append_assoc]
    rfl

/-- A fair roller answers within the bounds it is asked between. -/
theorem within (hfair : roller.Fair) (h : roller.Asked before requests after)
    (horder : ∀ q ∈ requests, q.Orderly) :
    ∀ q ∈ requests, q.lower ≤ q.result ∧ q.result ≤ q.upper := by
  induction h with
  | nothing tray => exact nofun
  | @next before after requests lower upper _ ih =>
    obtain ⟨hfirst, hrest⟩ := List.forall_mem_cons.1 horder
    exact List.forall_mem_cons.2 ⟨hfair lower upper before.dice hfirst, ih hrest⟩

end Roller.Asked

/-! ## One die after another -/

namespace DiceSpec

variable {spec : DiceSpec}

/-- How a die comes to its final face: with one request, or with a second one if the first answer is
up to the threshold. -/
inductive Die (spec : DiceSpec) : List Request → Integer → Prop
  | stays {face : Integer} (hface : ∀ threshold ∈ spec.reroll, amount threshold < face) :
      Die spec [⟨1, amount spec.sides, face⟩] face
  | again {first face : Integer} {threshold : UInt32} (hreroll : threshold ∈ spec.reroll)
      (hfirst : first ≤ amount threshold) :
      Die spec [⟨1, amount spec.sides, first⟩, ⟨1, amount spec.sides, face⟩] face

/-- All requests of a die are for one of its faces, and the last one is for the face that stays. -/
theorem Die.requests {requests : List Request} {face : Integer} (h : spec.Die requests face) :
    (∀ q ∈ requests, q.lower = 1 ∧ q.upper = amount spec.sides) ∧
      ⟨1, amount spec.sides, face⟩ ∈ requests := by
  cases h with
  | stays => simp
  | again => simp

section

variable {roller : Roller σ} {tray : Tray σ}

theorem rollFace_stays (h : ∀ threshold ∈ spec.reroll,
      amount threshold < (roller.ask 1 (amount spec.sides) tray).1) :
    spec.rollFace roller tray = roller.ask 1 (amount spec.sides) tray := by
  cases hreroll : spec.reroll with
  | none =>
    simp only [rollFace, hreroll]
    rfl
  | some threshold =>
    simp only [rollFace, hreroll]
    exact congrFun (if_neg (Int64.not_le.2 (h threshold hreroll))) _

theorem rollFace_again {threshold : UInt32} (hreroll : threshold ∈ spec.reroll)
    (h : (roller.ask 1 (amount spec.sides) tray).1 ≤ amount threshold) :
    spec.rollFace roller tray =
      roller.ask 1 (amount spec.sides) (roller.ask 1 (amount spec.sides) tray).2 := by
  rw [Option.mem_def] at hreroll
  simp only [rollFace, hreroll]
  exact congrFun (if_pos h) _

end

theorem rollFace_asks (roller : Roller σ) (spec : DiceSpec) (tray : Tray σ) :
    ∃ requests, spec.Die requests (spec.rollFace roller tray).1 ∧
      roller.Asked tray requests (spec.rollFace roller tray).2 := by
  by_cases hagain : ∃ threshold ∈ spec.reroll,
      (roller.ask 1 (amount spec.sides) tray).1 ≤ amount threshold
  · obtain ⟨threshold, hreroll, hlow⟩ := hagain
    rw [rollFace_again hreroll hlow]
    exact ⟨_, .again hreroll hlow, .next _ _ (.next _ _ (.nothing _))⟩
  · have hstays : ∀ threshold ∈ spec.reroll,
        amount threshold < (roller.ask 1 (amount spec.sides) tray).1 :=
      fun threshold hreroll => Int64.not_le.1 fun hle => hagain ⟨threshold, hreroll, hle⟩
    rw [rollFace_stays hstays]
    exact ⟨_, .stays hstays, .next _ _ (.nothing _)⟩

theorem rollFaces_asks (roller : Roller σ) (spec : DiceSpec) (n : Nat) (tray : Tray σ) :
    ∃ requests : List (List Request),
      List.Forall₂ spec.Die requests (spec.rollFaces roller n tray).1 ∧
      (spec.rollFaces roller n tray).1.length = n ∧
      roller.Asked tray requests.flatten (spec.rollFaces roller n tray).2 := by
  induction n generalizing tray with
  | zero => exact ⟨[], .nil, rfl, .nothing tray⟩
  | succ n ih =>
    obtain ⟨first, hdie, hfirst⟩ := rollFace_asks roller spec tray
    obtain ⟨requests, hdice, hlength, hrest⟩ := ih (spec.rollFace roller tray).2
    exact ⟨first :: requests, .cons hdie hdice, congrArg (· + 1) hlength, hfirst.append hrest⟩

end DiceSpec

/-! ## The faces that are kept -/

/-- Of numbers, those that come first in an order: as many as a limit lets through, and none of the
others belongs in front of one of them. -/
structure Foremost (rel : Integer → Integer → Prop) (limit : Option UInt32)
    (all part : List Integer) : Prop where
  length : part.length = limit.elim all.length fun n => min n.toNat all.length
  others : ∃ others, all.Perm (part ++ others) ∧ ∀ a ∈ part, ∀ b ∈ others, rel a b

namespace Foremost

variable {rel : Integer → Integer → Prop} {limit : Option UInt32}
  {all all' part part' : List Integer}

theorem perm (h : Foremost rel limit all part) (hall : all.Perm all') (hpart : part.Perm part') :
    Foremost rel limit all' part' where
  length := by rw [← hpart.length_eq, h.length, hall.length_eq]
  others := by
    obtain ⟨others, hsplit, hrel⟩ := h.others
    refine ⟨others, hall.symm.trans (hsplit.trans (hpart.append_right others)), ?_⟩
    exact fun a ha => hrel a (hpart.mem_iff.2 ha)

theorem subperm (h : Foremost rel limit all part) : part.Subperm all := by
  obtain ⟨others, hsplit, -⟩ := h.others
  exact (List.sublist_append_left part others).subperm.trans hsplit.symm.subperm

/-- Without a limit all come first. -/
theorem unlimited (all : List Integer) : Foremost rel none all all :=
  ⟨rfl, [], by rw [List.append_nil], nofun⟩

/-- The first elements of a sorted list come first. -/
theorem take {precedes : Integer → Integer → Bool}
    (hrel : ∀ a b, precedes b a = false ↔ rel a b) (htotal : ∀ a b, rel a b ∨ rel b a)
    (htrans : ∀ a b c, rel a b → rel b c → rel a c) (n : UInt32) (all : List Integer) :
    Foremost rel (some n) all ((Sorting.stable precedes all).take n.toNat) := by
  have hperm := Sorting.stable_perm precedes all
  have hsorted : (Sorting.stable precedes all).Pairwise rel := by
    have hpairwise : (Sorting.stable precedes all).Pairwise fun a b => precedes b a = false := by
      refine Sorting.pairwise_stable (fun x _ y _ hxy => ?_) (fun x _ y _ z _ hxy hyz => ?_)
      · refine (hrel x y).2 ((htotal x y).resolve_right fun hyx => ?_)
        rw [(hrel y x).2 hyx] at hxy
        cases hxy
      · exact (hrel z x).2 (htrans z y x ((hrel z y).1 hyz) ((hrel y x).1 hxy))
    exact hpairwise.imp fun h => (hrel _ _).1 h
  refine ⟨?_, (Sorting.stable precedes all).drop n.toNat, ?_, ?_⟩
  · rw [List.length_take, hperm.length_eq]
    rfl
  · rw [List.take_append_drop]
    exact hperm.symm
  · rw [← List.take_append_drop n.toNat (Sorting.stable precedes all)] at hsorted
    exact (List.pairwise_append.1 hsorted).2.2

/-- What comes first is the same up to order, if no two different numbers come in front of each
other. -/
theorem unique (hantisymm : ∀ a b, rel a b → rel b a → a = b) (h : Foremost rel limit all part)
    (h' : Foremost rel limit all part') : part.Perm part' := by
  obtain ⟨others, hsplit, hrel⟩ := h.others
  obtain ⟨others', hsplit', hrel'⟩ := h'.others
  have hlength : part.length = part'.length := h.length.trans h'.length.symm
  have hcount : ∀ x, part.count x + others.count x = part'.count x + others'.count x := fun x => by
    rw [← List.count_append, ← List.count_append, ← hsplit.count_eq, ← hsplit'.count_eq]
  -- what there is more of in one part is among the others of the other
  have hmore : ∀ x, part'.count x < part.count x → x ∈ part ∧ x ∈ others' := fun x hx => by
    have hx' := hcount x
    exact ⟨List.count_pos_iff.1 (by omega), List.count_pos_iff.1 (by omega)⟩
  have hless : ∀ x, part.count x < part'.count x → x ∈ part' ∧ x ∈ others := fun x hx => by
    have hx' := hcount x
    exact ⟨List.count_pos_iff.1 (by omega), List.count_pos_iff.1 (by omega)⟩
  by_cases hle : ∀ x, part'.count x ≤ part.count x
  · have hsub : part'.Subperm part := List.subperm_ext_iff.2 fun x _ => hle x
    exact (hsub.perm_of_length_le hlength.le).symm
  · obtain ⟨y, hy⟩ := not_forall.1 hle
    obtain ⟨hy', hyothers⟩ := hless y (Nat.lt_of_not_le hy)
    have hsub : part.Subperm part' := by
      refine List.subperm_ext_iff.2 fun x _ => ?_
      by_contra hx
      obtain ⟨hx', hxothers⟩ := hmore x (Nat.lt_of_not_le hx)
      -- then each of the two comes in front of the other
      have heq := hantisymm x y (hrel x hx' y hyothers) (hrel' y hy' x hxothers)
      rw [heq] at hx
      omega
    exact hsub.perm_of_length_le hlength.ge

end Foremost

namespace DiceSpec

theorem foremost_highest (limit : Option UInt32) (faces : List Integer) :
    Foremost (fun a b => b ≤ a) limit faces (highest limit faces) := by
  cases limit with
  | none => exact .unlimited faces
  | some n =>
    refine .take (fun a b => ?_) (fun a b => Int64.le_total b a) (fun a b c hab hbc => ?_) n faces
    · rw [decide_eq_false_iff_not, Int64.not_lt]
    · exact Int64.le_trans hbc hab

theorem foremost_lowest (limit : Option UInt32) (faces : List Integer) :
    Foremost (fun a b => a ≤ b) limit faces (lowest limit faces) := by
  cases limit with
  | none => exact .unlimited faces
  | some n =>
    refine .take (fun a b => ?_) Int64.le_total (fun a b c => Int64.le_trans) n faces
    rw [decide_eq_false_iff_not, Int64.not_lt]

/-- Numbers are those that a roll keeps, in some order, exactly if they are the lowest of the
highest faces. -/
theorem kept_perm_iff (spec : DiceSpec) (faces part : List Integer) :
    (spec.kept faces).Perm part ↔ ∃ best,
      Foremost (fun a b => b ≤ a) spec.keepHighest faces best ∧
        Foremost (fun a b => a ≤ b) spec.keepLowest best part := by
  have hbest := foremost_highest spec.keepHighest faces
  have hkept : Foremost (fun a b => a ≤ b) spec.keepLowest (highest spec.keepHighest faces)
      (spec.kept faces) := foremost_lowest _ _
  constructor
  · exact fun h => ⟨_, hbest, hkept.perm (.refl _) h⟩
  · rintro ⟨best, hbest', hpart⟩
    have hperm : best.Perm (highest spec.keepHighest faces) :=
      hbest'.unique (fun _ _ hab hba => Int64.le_antisymm hba hab) hbest
    exact hkept.unique (fun _ _ => Int64.le_antisymm) (hpart.perm hperm (.refl _))

end DiceSpec

/-! ## Whole rolls -/

namespace DiceSpec

theorem toInt_amount (n : UInt32) : (amount n).toInt = n.toNat := by
  have hlt := n.toNat_lt
  rw [amount, Int64.toInt_ofNat_of_lt (by omega)]

/-- What a roll of dice is, from a tray to the tray that it leaves: a face for every die, with
requests for nothing but faces; of the highest faces the lowest are kept, as far as they are
limited; the total is their sum, and lies between what ones and what the highest faces would
give. -/
structure Rolled (roller : Roller σ) (spec : DiceSpec) (before : Tray σ) (roll : DiceRoll)
    (after : Tray σ) : Prop where
  dice : ∃ requests : List (List Request), List.Forall₂ spec.Die requests roll.faces ∧
    roller.Asked before requests.flatten after ∧
    after.requests = requests.flatten.reverse ++ before.requests
  count : roll.faces.length = spec.count.toNat
  faces : ∀ face ∈ roll.faces, 1 ≤ face.toInt ∧ face.toInt ≤ spec.sides.toNat
  kept : ∀ part, roll.kept.Perm part ↔ ∃ best,
    Foremost (fun a b => b ≤ a) spec.keepHighest roll.faces best ∧
      Foremost (fun a b => a ≤ b) spec.keepLowest best part
  total : roll.total.toInt = (roll.kept.map Int64.toInt).sum
  length_le_total : roll.kept.length ≤ roll.total.toInt
  total_le : roll.total.toInt ≤ roll.kept.length * spec.sides.toNat

variable {roller : Roller σ} {spec : DiceSpec} {before after : Tray σ}
  {requests : List (List Request)} {faces : List Integer}

theorem kept_subperm (spec : DiceSpec) (faces : List Integer) :
    (spec.kept faces).Subperm faces :=
  (foremost_lowest _ _).subperm.trans (foremost_highest _ _).subperm

/-- All requests of dice are for faces, and every face that stays is the answer to one of them. -/
theorem requests_of_dice (h : List.Forall₂ spec.Die requests faces) :
    (∀ q ∈ requests.flatten, q.lower = 1 ∧ q.upper = amount spec.sides) ∧
      ∀ face ∈ faces, ⟨1, amount spec.sides, face⟩ ∈ requests.flatten := by
  induction h with
  | nil => exact ⟨nofun, nofun⟩
  | cons hdie _ ih =>
    obtain ⟨hbounds, hfaces⟩ := ih
    obtain ⟨hfirst, hface⟩ := hdie.requests
    constructor
    · intro q hq
      rcases List.mem_append.1 hq with hq | hq
      · exact hfirst q hq
      · exact hbounds q hq
    · refine List.forall_mem_cons.2 ⟨List.mem_append_left _ hface, fun face hmem => ?_⟩
      exact List.mem_append_right _ (hfaces face hmem)

/-- Faces that are asked of a fair roller are faces of the dice. -/
theorem faces_within (hfair : roller.Fair) (hsides : spec.sides ≠ 0)
    (hdice : List.Forall₂ spec.Die requests faces)
    (hasked : roller.Asked before requests.flatten after) :
    ∀ face ∈ faces, 1 ≤ face.toInt ∧ face.toInt ≤ spec.sides.toNat := by
  obtain ⟨hbounds, hfaces⟩ := requests_of_dice hdice
  have horder : ∀ q ∈ requests.flatten, q.Orderly := by
    intro q hq
    obtain ⟨hlower, hupper⟩ := hbounds q hq
    rw [Request.Orderly, hlower, hupper]
    exact one_le_amount hsides
  intro face hface
  have hwithin := hasked.within hfair horder _ (hfaces face hface)
  rw [Int64.le_iff_toInt_le, Int64.le_iff_toInt_le, toInt_amount, Int64.toInt_one] at hwithin
  exact hwithin

/-- Dice that have sides, and whose faces add up to a number that fits, are rolled. -/
theorem roll?_rolled (hfair : roller.Fair) (hsides : spec.sides ≠ 0)
    (hfits : (spec.count.toNat * spec.sides.toNat : Int) ≤ Integer.greatest)
    (before : Tray σ) :
    ∃ roll after, spec.roll? roller before = (some roll, after) ∧
      Rolled roller spec before roll after := by
  obtain ⟨requests, hdice, hcount, hasked⟩ := rollFaces_asks roller spec spec.count.toNat before
  generalize hrolled : spec.rollFaces roller spec.count.toNat before = rolled at hdice hcount hasked
  obtain ⟨faces, after⟩ := rolled
  dsimp only at hdice hcount hasked
  have hroll : spec.roll? roller before =
      (some ⟨faces, spec.kept faces, (spec.kept faces).foldl (· + ·) 0⟩, after) := by
    unfold roll?
    rw [if_neg hsides]
    show (some _, (spec.rollFaces roller spec.count.toNat before).2) = _
    rw [hrolled]
  have hfaces := faces_within hfair hsides hdice hasked
  have hkept : ∀ n ∈ (spec.kept faces).map Int64.toInt, 1 ≤ n ∧ n ≤ spec.sides.toNat :=
    List.forall_mem_map.2 fun face hface => hfaces face ((kept_subperm spec faces).subset hface)
  -- no fewer than one and no more than the sides for each face that is kept
  have hlower := List.card_nsmul_le_sum ((spec.kept faces).map Int64.toInt) 1
    fun n hn => (hkept n hn).1
  have hupper := List.sum_le_card_nsmul ((spec.kept faces).map Int64.toInt) _
    fun n hn => (hkept n hn).2
  rw [List.length_map, nsmul_eq_mul] at hlower hupper
  have htotal : ((spec.kept faces).foldl (· + ·) 0).toInt =
      ((spec.kept faces).map Int64.toInt).sum := by
    refine Integer.toInt_foldl_add (fun n hn => ?_) ?_
    · have hone := (hkept n.toInt (List.mem_map_of_mem hn)).1
      omega
    · have hlength := (kept_subperm spec faces).length_le
      rw [hcount] at hlength
      refine le_trans hupper (le_trans ?_ hfits)
      exact mul_le_mul_of_nonneg_right (by exact_mod_cast hlength) (Int.natCast_nonneg _)
  refine ⟨_, after, hroll, ⟨requests, hdice, hasked, hasked.noted⟩, hcount, hfaces,
    kept_perm_iff spec faces, htotal, ?_, ?_⟩
  · show _ ≤ ((spec.kept faces).foldl (· + ·) 0).toInt
    rw [htotal]
    simpa using hlower
  · show ((spec.kept faces).foldl (· + ·) 0).toInt ≤ _
    rw [htotal]
    exact hupper

/-- Rolls of the same dice one after another, each from the tray that the one before leaves. -/
inductive Rolls (roller : Roller σ) (spec : DiceSpec) : Tray σ → List DiceRoll → Tray σ → Prop
  | nil (tray : Tray σ) : Rolls roller spec tray [] tray
  | cons {before middle after : Tray σ} {roll : DiceRoll} {rolls : List DiceRoll}
      (hroll : Rolled roller spec before roll middle)
      (hrest : Rolls roller spec middle rolls after) :
      Rolls roller spec before (roll :: rolls) after

/-- The sum of the totals of rolls. -/
def sumOf (rolls : List DiceRoll) : Int := (rolls.map fun roll => roll.total.toInt).sum

end DiceSpec

end DiceScript
