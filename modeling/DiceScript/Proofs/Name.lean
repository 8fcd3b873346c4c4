import DiceScript.Name
import DiceScript.Proofs.Text.Letter

/-!
Normal forms of names. A normal form has no blanks and every letter of it is in upper case, so it is
one word that stays as it is: the normal form of a normal form is that form again.
-/

namespace DiceScript

/-! ## Words -/

namespace Text

variable {c : Char} {cs w : List Char}

theorem isBlank_of_mem_consWord {rest : List Char} {ws : List (List Char)}
    (hc : isBlank c = false) (hws : ∀ w ∈ ws, ∀ d ∈ w, isBlank d = false) :
    ∀ w ∈ consWord c rest ws, ∀ d ∈ w, isBlank d = false := by
  cases ws with
  | nil => simpa [consWord] using hc
  | cons first others =>
    rw [consWord]
    split
    · simpa [hc] using hws
    · simpa [hc] using hws

/-- The words of a text are made of its characters that are not blank. -/
theorem isBlank_of_mem_words (cs : List Char) : ∀ w ∈ words cs, ∀ c ∈ w, isBlank c = false := by
  induction cs with
  | nil => simp [words]
  | cons c rest ih =>
    unfold words
    split
    case isTrue => exact ih
    case isFalse hc => exact isBlank_of_mem_consWord (Bool.eq_false_iff.2 hc) ih

/-- A text without blanks is a single word. -/
theorem words_of_no_blank (h : ∀ c ∈ cs, isBlank c = false) :
    words cs = if cs = [] then [] else [cs] := by
  induction cs with
  | nil => rfl
  | cons c rest ih =>
    have hc : isBlank c = false := h c List.mem_cons_self
    have hrest := ih fun d hd => h d (List.mem_cons_of_mem _ hd)
    rw [words, hc, hrest]
    cases rest with
    | nil => rfl
    | cons d rest =>
      have hd : isBlank d = false := h d (List.mem_cons_of_mem _ List.mem_cons_self)
      simp [consWord, hd]

end Text

/-! ## Normal forms -/

namespace Name

theorem mem_intercalate {α : Type} {x : α} {separator : List α} {parts : List (List α)}
    (h : x ∈ separator.intercalate parts) : x ∈ separator ∨ ∃ part ∈ parts, x ∈ part := by
  induction parts with
  | nil => cases h
  | cons first others ih =>
    cases others with
    | nil => exact .inr ⟨first, List.mem_cons_self, by simpa using h⟩
    | cons second others =>
      rw [List.intercalate_cons_cons, List.mem_append, List.mem_append] at h
      rcases h with (hfirst | hseparator) | hothers
      · exact .inr ⟨first, List.mem_cons_self, hfirst⟩
      · exact .inl hseparator
      · refine (ih hothers).imp_right ?_
        rintro ⟨part, hpart, hx⟩
        exact ⟨part, List.mem_cons_of_mem _ hpart, hx⟩

/-- The characters of a normal form are those that names are made of: no blanks, and no letters
that have another upper case. -/
theorem of_mem_normalize {name : String} {c : Char} (h : c ∈ (normalize name).toList) :
    Text.isBlank c = false ∧ Letter.upper c = [c] := by
  rw [normalize, String.toList_ofList] at h
  rcases mem_intercalate h with hseparator | ⟨part, hpart, hc⟩
  · rw [List.mem_singleton.1 hseparator]
    decide
  · obtain ⟨w, hw, rfl⟩ := List.mem_map.1 hpart
    obtain ⟨letter, hletter, hc⟩ := List.mem_flatMap.1 hc
    have hblank := Text.isBlank_of_mem_words name.toList w hw letter hletter
    exact ⟨Letter.isBlank_of_mem_upper hblank hc, Letter.upper_of_mem_upper hc⟩

@[simp]
theorem normalize_normalize (name : String) : normalize (normalize name) = normalize name := by
  have hchars := fun (c : Char) (hc : c ∈ (normalize name).toList) => of_mem_normalize hc
  rw [normalize, Text.words_of_no_blank fun c hc => (hchars c hc).1]
  by_cases hempty : (normalize name).toList = []
  · rw [if_pos hempty, List.map_nil, List.intercalate_nil, ← hempty, String.ofList_toList]
  · rw [if_neg hempty, List.map_singleton, List.intercalate_singleton,
      Letter.upperText_of_fixed fun c hc => (hchars c hc).2, String.ofList_toList]

example : normalize " Hit\tpoints " = "HIT_POINTS" := by decide

end Name

end DiceScript
