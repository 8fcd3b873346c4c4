import DiceScript.Text.Blank
import DiceScript.Text.Letter
import Mathlib

/-!
What the table of upper-case letters promises. No letter that a letter becomes is itself changed by
upper-casing, and none is a blank. Both are facts about finitely many code points, so they are
checked on the table: the sets of code points are written as the bits of numbers, and two sets are
disjoint when their numbers share no bit.
-/

namespace DiceScript.Letter

/-! ## Sets of code points -/

/-- The number whose bits are the members of a list. -/
def mask : List Nat → Nat
  | [] => 0
  | code :: codes => 2 ^ code ||| mask codes

@[simp]
theorem testBit_mask (codes : List Nat) (code : Nat) :
    (mask codes).testBit code = true ↔ code ∈ codes := by
  induction codes with
  | nil => simp [mask]
  | cons first codes ih =>
    rw [mask, Nat.testBit_or, Bool.or_eq_true, ih, Nat.testBit_two_pow, decide_eq_true_iff,
      List.mem_cons, eq_comm]

theorem disjoint_of_mask {xs ys : List Nat} (h : mask xs &&& mask ys = 0) : xs.Disjoint ys := by
  intro code hx hy
  have hbit : (mask xs &&& mask ys).testBit code = true := by
    rw [Nat.testBit_and, Bool.and_eq_true, testBit_mask, testBit_mask]
    exact ⟨hx, hy⟩
  rw [h, Nat.zero_testBit] at hbit
  cases hbit

/-! ## Code points of the tables -/

/-- The members of a run. -/
def Run.codes (r : Run) : List Nat :=
  (List.range ((r.last - r.first) / r.step + 1)).map fun i => r.first + i * r.step

/-- What the members of a run become. -/
def Run.images (r : Run) : List Nat := r.codes.map fun code : Nat => Int.toNat (code + r.shift)

theorem Run.of_image? {r : Run} {code image : Nat} (h : r.image? code = some image) :
    code ∈ r.codes ∧ image ∈ r.images := by
  unfold image? at h
  split at h
  case isFalse => cases h
  case isTrue hcode =>
    obtain ⟨hfirst, hlast, hstep⟩ := hcode
    have hmem : code ∈ r.codes := by
      refine List.mem_map.2 ⟨(code - r.first) / r.step, List.mem_range.2 ?_, ?_⟩
      · exact Nat.lt_succ_of_le (Nat.div_le_div_right (Nat.sub_le_sub_right hlast _))
      · rw [Nat.div_mul_cancel (Nat.dvd_of_mod_eq_zero hstep), Nat.add_sub_cancel' hfirst]
    cases h
    exact ⟨hmem, List.mem_map_of_mem hmem⟩

/-- The code points that upper-casing may change. -/
def upperSources : List Nat :=
  (List.range 26).map (0x61 + ·) ++ upperRuns.flatMap Run.codes ++ upperSpecial.map Prod.fst

/-- The code points that upper-casing puts in their place. -/
def upperImages : List Nat :=
  (List.range 26).map (0x41 + ·) ++ upperRuns.flatMap Run.images ++ upperSpecial.flatMap Prod.snd

theorem upperImages_disjoint_upperSources : upperImages.Disjoint upperSources :=
  disjoint_of_mask (by decide +kernel)

/-- The blanks. -/
def blankCodes : List Nat :=
  Text.blankIntervals.flatMap fun bounds => List.range' bounds.1 (bounds.2 + 1 - bounds.1)

theorem upperImages_disjoint_blankCodes : upperImages.Disjoint blankCodes :=
  disjoint_of_mask (by decide +kernel)

theorem isValidChar_of_mem_upperImages {code : Nat} (h : code ∈ upperImages) :
    code.isValidChar := by
  have hall : (upperImages.all fun code =>
      Nat.blt code 0xD800 || (Nat.blt 0xDFFF code && Nat.blt code 0x110000)) = true := by
    decide +kernel
  have hcode := List.all_eq_true.1 hall code h
  simpa [Nat.isValidChar, Nat.blt_eq] using hcode

theorem mem_blankCodes {c : Char} (h : Text.isBlank c = true) : c.toNat ∈ blankCodes := by
  obtain ⟨bounds, hmem, hbounds⟩ := List.any_eq_true.1 h
  have hcode : bounds.1 ≤ c.toNat ∧ c.toNat ≤ bounds.2 := by simpa using hbounds
  refine List.mem_flatMap.2 ⟨bounds, hmem, List.mem_range'_1.2 ⟨hcode.1, ?_⟩⟩
  omega

/-! ## Upper case -/

theorem toUpper_cases {c : Char} (h : c.toNat < 0x80) :
    c.toUpper = c ∨ c.toNat ∈ upperSources ∧ c.toUpper.toNat ∈ upperImages := by
  have hall : ∀ code < 0x80, (Char.ofNat code).toUpper = Char.ofNat code ∨
      code ∈ (List.range 26).map (0x61 + ·) ∧
        (Char.ofNat code).toUpper.toNat ∈ (List.range 26).map (0x41 + ·) := by
    decide +kernel
  have hc := hall c.toNat h
  rw [Char.ofNat_toNat] at hc
  refine hc.imp_right ?_
  rintro ⟨hsource, himage⟩
  exact ⟨List.mem_append_left _ (List.mem_append_left _ hsource),
    List.mem_append_left _ (List.mem_append_left _ himage)⟩

theorem toNat_ofNat_of_mem {code : Nat} (h : code ∈ upperImages) :
    (Char.ofNat code).toNat = code := by
  rw [Char.toNat_ofNat, if_pos (isValidChar_of_mem_upperImages h)]

/-- A character is its own upper case, or the table has it and everything that it becomes. -/
theorem upper_cases (c : Char) :
    upper c = [c] ∨ c.toNat ∈ upperSources ∧ ∀ d ∈ upper c, d.toNat ∈ upperImages := by
  unfold upper
  by_cases hascii : c.toNat < 0x80
  · rw [if_pos hascii]
    rcases toUpper_cases hascii with heq | ⟨hsource, himage⟩
    · exact .inl (by rw [heq])
    · refine .inr ⟨hsource, fun d hd => ?_⟩
      rwa [List.mem_singleton.1 hd]
  · rw [if_neg hascii]
    unfold mapped
    cases hspecial : upperSpecial.lookup c.toNat with
    | some codes =>
      obtain ⟨before, after, heq, -⟩ := List.lookup_eq_some_iff.1 hspecial
      have hmem : (c.toNat, codes) ∈ upperSpecial := by
        rw [heq]
        exact List.mem_append_right _ List.mem_cons_self
      refine .inr ⟨List.mem_append_right _ (List.mem_map_of_mem hmem), fun d hd => ?_⟩
      obtain ⟨code, hcode, rfl⟩ := List.mem_map.1 hd
      have himage : code ∈ upperImages :=
        List.mem_append_right _ (List.mem_flatMap.2 ⟨_, hmem, hcode⟩)
      rwa [toNat_ofNat_of_mem himage]
    | none =>
      cases hrun : upperRuns.findSome? (·.image? c.toNat) with
      | none => exact .inl rfl
      | some image =>
        obtain ⟨r, hr, himage⟩ := List.exists_of_findSome?_eq_some hrun
        obtain ⟨hcode, himage⟩ := Run.of_image? himage
        have hsource : c.toNat ∈ upperSources := List.mem_append_left _
          (List.mem_append_right _ (List.mem_flatMap.2 ⟨r, hr, hcode⟩))
        have himage : image ∈ upperImages := List.mem_append_left _
          (List.mem_append_right _ (List.mem_flatMap.2 ⟨r, hr, himage⟩))
        refine .inr ⟨hsource, fun d hd => ?_⟩
        rwa [List.mem_singleton.1 hd, toNat_ofNat_of_mem himage]

/-- A letter in upper case stays as it is. -/
theorem upper_of_mem_upper {c d : Char} (h : d ∈ upper c) : upper d = [d] := by
  rcases upper_cases c with hc | ⟨-, himages⟩
  · rw [hc, List.mem_singleton] at h
    rw [h, hc]
  · rcases upper_cases d with hd | ⟨hsource, -⟩
    · exact hd
    · exact absurd hsource (upperImages_disjoint_upperSources (himages d h))

/-- No letter becomes a blank. -/
theorem isBlank_of_mem_upper {c d : Char} (hc : Text.isBlank c = false) (h : d ∈ upper c) :
    Text.isBlank d = false := by
  rcases upper_cases c with heq | ⟨-, himages⟩
  · rw [heq, List.mem_singleton] at h
    rwa [h]
  · refine Bool.eq_false_iff.2 fun hblank => ?_
    exact upperImages_disjoint_blankCodes (himages d h) (mem_blankCodes hblank)

/-- The upper case of a text in upper case is the text itself. -/
theorem upperText_of_fixed {cs : List Char} (h : ∀ c ∈ cs, upper c = [c]) : upperText cs = cs := by
  unfold upperText
  induction cs with
  | nil => rfl
  | cons c cs ih =>
    rw [List.flatMap_cons, h c List.mem_cons_self,
      ih fun d hd => h d (List.mem_cons_of_mem _ hd), List.singleton_append]

end DiceScript.Letter
