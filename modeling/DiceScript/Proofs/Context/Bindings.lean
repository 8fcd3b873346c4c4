import DiceScript.Proofs.Context.Names

/-!
Single bindings. Each way to write a variable replaces or adds one binding and leaves every other
binding of every frame as it was. Setting a variable goes to the innermost frame, elevating to the
global one, and updating to the innermost frame that has the name.
-/

namespace DiceScript.Context

variable {c c' : Context} {name : String} {v : Value}

/-- What a frame has for a name. Frames are counted from the innermost one. -/
def binding (c : Context) (i : Nat) (name : String) : Option Value :=
  (c.frames[i]?).bind (·.get? name)

/-- A binding of one frame is replaced or added, and nothing else is changed. -/
structure Rebinds (c c' : Context) (i : Nat) (name : String) (v : Value) : Prop where
  frame : i < c.frames.length
  depth : c'.frames.length = c.frames.length
  binding : ∀ j other, c'.binding j other =
    if j = i ∧ other = name then some v else c.binding j other

theorem rebinds_of_modify {i : Nat} (hi : i < c.frames.length)
    (h : c'.frames = c.frames.modify i (·.insert name v)) : c.Rebinds c' i name v where
  frame := hi
  depth := by rw [h, List.length_modify]
  binding := by
    intro j other
    unfold binding
    rw [h, List.getElem?_modify]
    by_cases hj : j = i
    · subst hj
      simp only [List.getElem?_eq_getElem hi, Option.map_eq_map, Option.map_some, if_true,
        Option.bind_some, Frame.get?_insert, true_and]
    · simp [hj, Ne.symm hj]

theorem frames_length_pos (c : Context) : 0 < c.frames.length := by
  rw [frames_eq]
  exact Nat.succ_pos _

/-! ## The innermost and the global frame -/

theorem frames_assign (c : Context) (name : String) (v : Value) :
    (c.assign name v).frames = c.frames.modify 0 (·.insert (Name.normalize name) v) := by
  rw [frames_eq (c.assign name v), frames_eq c, innermost_assign, outer_assign,
    List.modify_zero_cons]

theorem rebinds_assign (c : Context) (name : String) (v : Value) :
    c.Rebinds (c.assign name v) 0 (Name.normalize name) v :=
  rebinds_of_modify c.frames_length_pos (frames_assign c name v)

@[simp]
theorem lookup_assign (c : Context) (name : String) (v : Value) :
    (c.assign name v).lookup name = some v := by
  unfold assign modifyInnermost lookup
  cases c.locals with
  | nil => simp [find?, Frame.get?_insert]
  | cons f outer => simp [find?, Frame.get?_insert]

theorem modify_append {α : Type} (xs ys : List α) (i : Nat) (f : α → α) :
    (xs ++ ys).modify i f =
      if i < xs.length then xs.modify i f ++ ys else xs ++ ys.modify (i - xs.length) f := by
  induction xs generalizing i with
  | nil => simp
  | cons x xs ih =>
    cases i with
    | zero => simp
    | succ i =>
      rw [List.cons_append, List.modify_succ_cons, ih]
      by_cases h : i < xs.length
      · simp [h]
      · simp [h]

theorem frames_setGlobal (c : Context) (name : String) (v : Value) :
    (c.setGlobal name v).frames =
      c.frames.modify c.locals.length (·.insert (Name.normalize name) v) := by
  unfold frames setGlobal
  rw [modify_append, if_neg (Nat.lt_irrefl _), Nat.sub_self, List.modify_zero_cons]

theorem rebinds_setGlobal (c : Context) (name : String) (v : Value) :
    c.Rebinds (c.setGlobal name v) c.locals.length (Name.normalize name) v := by
  refine rebinds_of_modify ?_ (frames_setGlobal c name v)
  simp [frames]

/-! ## The frame that has a name -/

/-- The innermost frame that has a name, or the innermost of all if none has it. -/
def home (c : Context) (name : String) : Nat := (c.frames.findIdx? (·.has name)).getD 0

theorem overwrite?_eq (name : String) (v : Value) (fs : List Frame) :
    overwrite? name v fs =
      (fs.findIdx? (·.has name)).map fun i => fs.modify i (·.insert name v) := by
  induction fs with
  | nil => rfl
  | cons f fs ih =>
    unfold overwrite?
    rw [List.findIdx?_cons]
    by_cases h : f.has name = true
    · rw [if_pos h, if_pos h, Option.map_some, List.modify_zero_cons]
    · rw [if_neg h, if_neg h, ih]
      cases fs.findIdx? (·.has name) <;> rfl

theorem frames_update (c : Context) (name : String) (v : Value) :
    (c.update name v).frames =
      c.frames.modify (c.home (Name.normalize name)) (·.insert (Name.normalize name) v) := by
  have hhome : c.frames.findIdx? (·.has (Name.normalize name)) =
      (c.locals.findIdx? (·.has (Name.normalize name))).or
        (if c.globals.has (Name.normalize name) then some c.locals.length else none) := by
    unfold frames
    rw [List.findIdx?_append, List.findIdx?_cons, List.findIdx?_nil]
    by_cases hg : c.globals.has (Name.normalize name) = true <;> simp [hg]
  unfold update home
  dsimp only
  rw [overwrite?_eq, hhome]
  cases h : c.locals.findIdx? (·.has (Name.normalize name)) with
  | some i =>
    obtain ⟨hi, -⟩ := List.findIdx?_eq_some_iff_getElem.1 h
    simp only [Option.map_some, Option.some_or, Option.getD_some, frames]
    rw [modify_append, if_pos hi]
  | none =>
    simp only [Option.map_none, Option.none_or]
    by_cases hg : c.globals.has (Name.normalize name) = true
    · rw [if_pos hg, if_pos hg, Option.getD_some]
      exact frames_setGlobal c name v
    · rw [if_neg hg, if_neg hg, Option.getD_none]
      exact frames_assign c name v

theorem home_lt (c : Context) (name : String) : c.home name < c.frames.length := by
  unfold home
  cases h : c.frames.findIdx? (·.has name) with
  | none => exact c.frames_length_pos
  | some i =>
    obtain ⟨hi, -⟩ := List.findIdx?_eq_some_iff_getElem.1 h
    exact hi

theorem rebinds_update (c : Context) (name : String) (v : Value) :
    c.Rebinds (c.update name v) (c.home (Name.normalize name)) (Name.normalize name) v :=
  rebinds_of_modify (home_lt c _) (frames_update c name v)

/-- The first place where a test holds stays the first when what stands there is replaced by
something that passes the test; where it held nowhere, the replaced front is the first. -/
theorem findIdx?_modify {α : Type} {p : α → Bool} {f : α → α} {xs : List α} (hxs : xs ≠ [])
    (hf : ∀ x, p (f x) = true) :
    (xs.modify ((xs.findIdx? p).getD 0) f).findIdx? p = some ((xs.findIdx? p).getD 0) := by
  induction xs with
  | nil => exact absurd rfl hxs
  | cons x xs ih =>
    rw [List.findIdx?_cons]
    by_cases hx : p x = true
    · simp [hx, hf, List.findIdx?_cons]
    · cases h : xs.findIdx? p with
      | none => simp [hx, hf, List.findIdx?_cons]
      | some i =>
        have hrest : xs ≠ [] := by
          rintro rfl
          cases h
        have hi := ih hrest
        rw [h, Option.getD_some] at hi
        simp [hx, List.findIdx?_cons, hi]

theorem findIdx?_modify_alike {α : Type} {p : α → Bool} {f : α → α} (xs : List α) (i : Nat)
    (hf : ∀ x, p (f x) = p x) : (xs.modify i f).findIdx? p = xs.findIdx? p := by
  induction xs generalizing i with
  | nil => simp
  | cons x xs ih =>
    cases i with
    | zero => simp [List.findIdx?_cons, hf]
    | succ i => simp [List.findIdx?_cons, ih]

/-- Writing a variable moves no name to another frame. -/
theorem home_update (c : Context) (name other : String) (v : Value) :
    (c.update name v).home other = c.home other := by
  unfold home
  rw [frames_update]
  by_cases h : other = Name.normalize name
  · subst h
    have hne : c.frames ≠ [] := List.ne_nil_of_length_pos c.frames_length_pos
    have hhas : ∀ f : Frame, (f.insert (Name.normalize name) v).has (Name.normalize name) = true :=
      fun f => (Frame.has_insert f).2 (.inl rfl)
    rw [home, findIdx?_modify hne hhas, Option.getD_some]
  -- no frame gains or loses another name
  · have hsame : ∀ f : Frame, (f.insert (Name.normalize name) v).has other = f.has other := by
      intro f
      unfold Frame.has
      rw [Frame.get?_insert, if_neg h]
    rw [findIdx?_modify_alike c.frames _ hsame]

/-! ## Frames counted from the global one -/

/-- What a name is bound to in the frame that stands on a number of others. The number stays the
same while other frames are opened and closed on top of it. -/
def bindingOn (c : Context) (below : Nat) (name : String) : Option Value :=
  (c.frames.reverse[below]?).bind (·.get? name)

theorem bindingOn_outer (c : Context) (name : String) :
    c.bindingOn c.outer.length name = c.innermost.get? name := by
  unfold bindingOn
  rw [frames_eq, List.reverse_cons, List.getElem?_append_right (by simp)]
  simp

end DiceScript.Context
