import DiceScript.Eval.Call
import Mathlib

/-!
Which names the frames of a context have. Writing a variable binds a name in the innermost frame, or
it overwrites a name that some frame has already. So a context keeps its frames, the frames other
than the innermost keep exactly their names, and the innermost loses none.
-/

namespace DiceScript

variable {name other : String} {v : Value}

/-! ## Frames -/

namespace Frame

theorem lookup_bind (bindings : List (String × Value)) :
    (bind name v bindings).lookup other =
      if other = name then some v else bindings.lookup other := by
  induction bindings with
  | nil =>
    by_cases h : other = name
    · simp [bind, h]
    · simp [bind, List.lookup, beq_eq_false_iff_ne.2 h, h]
  | cons first rest ih =>
    obtain ⟨key, w⟩ := first
    unfold bind
    by_cases hkey : key = name
    · subst hkey
      by_cases h : other = key
      · simp [h]
      · simp [List.lookup, beq_eq_false_iff_ne.2 h, h]
    · rw [if_neg hkey]
      by_cases h : other = key
      · subst h
        simp [hkey]
      · simp [List.lookup, beq_eq_false_iff_ne.2 h, ih]

theorem get?_insert (f : Frame) :
    (f.insert name v).get? other = if other = name then some v else f.get? other :=
  lookup_bind f.bindings

theorem has_insert (f : Frame) :
    (f.insert name v).has other = true ↔ other = name ∨ f.has other := by
  unfold has
  rw [get?_insert]
  by_cases h : other = name <;> simp [h]

/-- Two frames have the same names. -/
def SameNames (f g : Frame) : Prop := ∀ name, g.has name = true ↔ f.has name = true

theorem SameNames.refl (f : Frame) : f.SameNames f := fun _ => Iff.rfl

theorem SameNames.trans {f g h : Frame} (hfg : f.SameNames g) (hgh : g.SameNames h) :
    f.SameNames h := fun name => (hgh name).trans (hfg name)

/-- A name that a frame has already is only overwritten. -/
theorem sameNames_insert {f : Frame} (h : f.has name = true) : f.SameNames (f.insert name v) := by
  intro other
  rw [has_insert]
  constructor
  · rintro (rfl | hother)
    · exact h
    · exact hother
  · exact .inr

end Frame

/-! ## Contexts -/

namespace Context

variable {c c' c'' : Context}

/-- The frame that assignments go to. -/
def innermost (c : Context) : Frame := c.locals.head?.getD c.globals

/-- The frames around the innermost one. -/
def outer (c : Context) : List Frame := c.frames.tail

theorem frames_eq (c : Context) : c.frames = c.innermost :: c.outer := by
  unfold innermost outer frames
  cases c.locals <;> rfl

theorem length_outer_le (c : Context) : c.outer.length ≤ c.frames.length := by
  rw [frames_eq]
  exact Nat.le_succ _

theorem outer_of_no_locals (h : c.locals = []) : c.outer = [] := by
  simp [outer, frames, h]

theorem outer_of_locals {f : Frame} {fs : List Frame} (h : c.locals = f :: fs) :
    c.outer = fs ++ [c.globals] := by
  simp [outer, frames, h]

/-- The frames of a context have the same names, frame by frame. -/
def SameNames (fs gs : List Frame) : Prop := List.Forall₂ Frame.SameNames fs gs

theorem SameNames.refl (fs : List Frame) : SameNames fs fs :=
  List.forall₂_same.2 fun f _ => .refl f

theorem SameNames.trans {fs gs hs : List Frame} (hfg : SameNames fs gs) (hgh : SameNames gs hs) :
    SameNames fs hs := by
  induction hfg generalizing hs with
  | nil => exact hgh
  | cons hfirst _ ih =>
    cases hgh with
    | cons hsecond hrest => exact .cons (hfirst.trans hsecond) (ih hrest)

/-- What evaluation keeps of a context: its frames, exactly the names of the frames around the
innermost one, and the names of the innermost. -/
structure Kept (c c' : Context) : Prop where
  depth : c'.frames.length = c.frames.length
  outer : SameNames c.outer c'.outer
  innermost : ∀ name, c.innermost.has name = true → c'.innermost.has name = true

theorem Kept.refl (c : Context) : c.Kept c := ⟨rfl, .refl _, fun _ h => h⟩

theorem Kept.trans (h : c.Kept c') (h' : c'.Kept c'') : c.Kept c'' where
  depth := h'.depth.trans h.depth
  outer := h.outer.trans h'.outer
  innermost := fun name hname => h'.innermost name (h.innermost name hname)

/-- All frames keep their names, the innermost one too. -/
theorem kept_of_sameNames (h : SameNames c.frames c'.frames) : c.Kept c' := by
  have hdepth := h.length_eq
  unfold SameNames at h
  rw [frames_eq, frames_eq] at h
  cases h with
  | cons hinner houter => exact ⟨hdepth.symm, houter, fun name => (hinner name).2⟩

/-! ## Writing -/

/-- Only the innermost frame is written. -/
theorem outer_assign (c : Context) (name : String) (v : Value) :
    (c.assign name v).outer = c.outer := by
  unfold assign modifyInnermost
  split
  case h_1 h => simp [outer, frames, h]
  case h_2 f fs h => simp [outer, frames, h]

theorem innermost_assign (c : Context) (name : String) (v : Value) :
    (c.assign name v).innermost = c.innermost.insert (Name.normalize name) v := by
  unfold assign modifyInnermost
  split
  case h_1 h => simp [innermost, h]
  case h_2 f fs h => simp [innermost, h]

theorem kept_assign (c : Context) (name : String) (v : Value) : c.Kept (c.assign name v) where
  depth := by rw [frames_eq, frames_eq, outer_assign, List.length_cons, List.length_cons]
  outer := by
    rw [outer_assign]
    exact .refl _
  innermost := by
    intro other hother
    rw [innermost_assign, Frame.has_insert]
    exact .inr hother

theorem sameNames_setGlobal (h : c.globals.has (Name.normalize name) = true) :
    SameNames c.frames (c.setGlobal name v).frames := by
  unfold frames setGlobal
  refine List.rel_append (SameNames.refl c.locals) (.cons ?_ .nil)
  exact Frame.sameNames_insert h

theorem elevate_eq_ok (h : c.elevate name v = .ok c') :
    c.globals.has (Name.normalize name) = true ∧ c' = c.setGlobal name v := by
  unfold elevate at h
  dsimp only at h
  split at h
  case isTrue hhas =>
    cases h
    exact ⟨hhas, rfl⟩
  case isFalse => cases h

theorem kept_elevate (h : c.elevate name v = .ok c') : c.Kept c' := by
  obtain ⟨hhas, rfl⟩ := elevate_eq_ok h
  exact kept_of_sameNames (sameNames_setGlobal hhas)

theorem sameNames_overwrite? {fs gs : List Frame} (h : overwrite? name v fs = some gs) :
    SameNames fs gs := by
  induction fs generalizing gs with
  | nil => cases h
  | cons f fs ih =>
    unfold overwrite? at h
    split at h
    case isTrue hhas =>
      cases h
      exact .cons (Frame.sameNames_insert hhas) (SameNames.refl fs)
    -- the frame does not have the name, so it stays as it is
    case isFalse =>
      obtain ⟨gs, hgs, rfl⟩ := Option.map_eq_some_iff.1 h
      exact .cons (.refl f) (ih hgs)

/-- A variable that no frame has is bound in the innermost one. -/
theorem kept_update (c : Context) (name : String) (v : Value) : c.Kept (c.update name v) := by
  unfold update
  dsimp only
  split
  case h_1 locals hlocals =>
    refine kept_of_sameNames ?_
    exact List.rel_append (sameNames_overwrite? hlocals) (SameNames.refl [c.globals])
  case h_2 =>
    split
    case isTrue hhas => exact kept_of_sameNames (sameNames_setGlobal hhas)
    case isFalse => exact kept_assign c name v

theorem kept_copyBack (frame : Frame) (passed : List (Expr × String × Value)) (c : Context) :
    c.Kept (Eval.copyBack frame passed c) := by
  induction passed generalizing c with
  | nil => exact .refl c
  | cons first rest ih =>
    obtain ⟨e, param, value⟩ := first
    cases e with
    | var name =>
      cases hback : Eval.copiedBack? frame param value with
      | none =>
        simp only [Eval.copyBack, hback]
        exact ih c
      | some v =>
        simp only [Eval.copyBack, hback]
        exact (kept_update c name v).trans (ih _)
    -- only a variable is given anything back
    | _ => exact ih c

/-! ## Calls -/

/-- The frames around a call are those of its caller. -/
theorem outer_bindParams (params : List String) (args : List Value) (c : Context) :
    (Eval.bindParams params args c).outer = c.outer := by
  unfold Eval.bindParams
  induction params generalizing args c with
  | nil => rfl
  | cons param params ih =>
    cases args with
    | nil => rfl
    | cons arg args =>
      simp only [List.zip_cons_cons, List.foldl_cons]
      rw [ih, outer_assign]

theorem outer_pushScope (c : Context) : c.pushScope.outer = c.frames := rfl

/-- A call opens one frame around which the caller's stay. -/
theorem frames_of_call (params : List String) (args : List Value) (c : Context) :
    (Eval.bindParams params args c.pushScope).outer = c.frames :=
  (outer_bindParams params args _).trans (outer_pushScope c)

/-- Where a frame is open around the innermost one, closing that one leaves the others. -/
theorem frames_popScope (h : c.outer ≠ []) : c.popScope.2.frames = c.outer := by
  unfold popScope
  split
  case h_1 hlocals => exact absurd (outer_of_no_locals hlocals) h
  case h_2 f fs hlocals => exact (outer_of_locals hlocals).symm

/-- A call that keeps the context it was opened in leaves all names of its caller as they were. -/
theorem sameNames_call {params : List String} {args : List Value}
    (h : (Eval.bindParams params args c.pushScope).Kept c') :
    SameNames c.frames c'.outer := by
  have houter := h.outer
  rw [frames_of_call] at houter
  exact houter

/-- The caller has a frame, so one is open around that of the call. -/
theorem outer_ne_nil_of_call {params : List String} {args : List Value}
    (h : (Eval.bindParams params args c.pushScope).Kept c') : c'.outer ≠ [] := by
  intro hnil
  have hlength := (sameNames_call h).length_eq
  rw [hnil, frames_eq] at hlength
  cases hlength

theorem kept_call {params : List String} {args : List Value}
    (h : (Eval.bindParams params args c.pushScope).Kept c') : c.Kept c'.popScope.2 := by
  refine kept_of_sameNames ?_
  rw [frames_popScope (outer_ne_nil_of_call h)]
  exact sameNames_call h

end Context

end DiceScript
