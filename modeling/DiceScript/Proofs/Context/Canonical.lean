import DiceScript.Proofs.Context
import DiceScript.Proofs.Context.Bindings
import DiceScript.Proofs.Name
import DiceScript.Proofs.Sorting

/-!
Names in normal form. Whatever is done to a context, one after another, every name that a frame has
is its own normal form. So a name that the context lists is found under the spelling in which it is
listed, and which of its bindings a spelling stands for depends on the normal form of the spelling
alone.
-/

namespace DiceScript

variable {name other : String} {v : Value}

/-! ## Frames -/

namespace Frame

theorem lookup_filter_ne (bindings : List (String × Value)) :
    (bindings.filter fun b => b.1 != name).lookup other =
      if other = name then none else bindings.lookup other := by
  induction bindings with
  | nil => simp
  | cons first rest ih =>
    obtain ⟨key, w⟩ := first
    by_cases hkey : key = name
    · rw [List.filter_cons_of_neg (by simp [hkey]), ih]
      by_cases hother : other = name
      · rw [if_pos hother, if_pos hother]
      · rw [if_neg hother, if_neg hother, List.lookup, hkey, beq_eq_false_iff_ne.2 hother]
    · rw [List.filter_cons_of_pos (by simp [hkey])]
      by_cases hother : other = key
      · subst hother
        simp [hkey]
      · simp [List.lookup, beq_eq_false_iff_ne.2 hother, ih]

theorem get?_erase (f : Frame) :
    (f.erase name).get? other = if other = name then none else f.get? other :=
  lookup_filter_ne f.bindings

theorem exists_of_mem_names {f : Frame} (h : name ∈ f.names) :
    ∃ v, f.get? name = some v ∧ (name, v) ∈ f.bindings := by
  obtain ⟨binding, hbinding, rfl⟩ := List.mem_map.1 h
  have hsome : (f.get? binding.1).isSome = true :=
    List.lookup_isSome_iff.2 ⟨binding, hbinding, BEq.rfl⟩
  obtain ⟨v, hv⟩ := Option.isSome_iff_exists.1 hsome
  exact ⟨v, hv, mem_of_get? hv⟩

/-- A change of a frame that concerns one name only. -/
structure Touches (name : String) (change : Frame → Frame) : Prop where
  get? : ∀ f other, other ≠ name → (change f).get? other = f.get? other
  names : ∀ f, ∀ other ∈ (change f).names, other = name ∨ other ∈ f.names

theorem touches_insert (name : String) (v : Value) : Touches name (·.insert name v) where
  get? f other h := by rw [get?_insert, if_neg h]
  names f other h := by
    obtain ⟨binding, hbinding, rfl⟩ := List.mem_map.1 h
    rcases mem_bind hbinding with rfl | hmem
    · exact .inl rfl
    · exact .inr (List.mem_map_of_mem hmem)

theorem touches_erase (name : String) : Touches name (·.erase name) where
  get? f other h := by rw [get?_erase, if_neg h]
  names f other h := by
    obtain ⟨binding, hbinding, rfl⟩ := List.mem_map.1 h
    exact .inr (List.mem_map_of_mem (List.mem_filter.1 hbinding).1)

theorem touches_id (name : String) : Touches name id where
  get? _ _ _ := rfl
  names _ _ h := .inr h

end Frame

namespace Context

variable {c : Context} {a b : String}

/-! ## Changing one frame -/

theorem map_modify_of {α β : Type} {g : α → β} {f : α → α} (h : ∀ x, g (f x) = g x)
    (xs : List α) (i : Nat) : (xs.modify i f).map g = xs.map g := by
  induction xs generalizing i with
  | nil => simp
  | cons x xs ih => cases i <;> simp [h, ih]

theorem mem_modify {α : Type} {f : α → α} {xs : List α} {i : Nat} {y : α}
    (h : y ∈ xs.modify i f) : y ∈ xs ∨ ∃ x ∈ xs, y = f x := by
  induction xs generalizing i with
  | nil => simp at h
  | cons x xs ih =>
    cases i with
    | zero =>
      rcases List.mem_cons.1 h with rfl | h
      · exact .inr ⟨x, List.mem_cons_self, rfl⟩
      · exact .inl (List.mem_cons_of_mem _ h)
    | succ i =>
      rcases List.mem_cons.1 h with rfl | h
      · exact .inl List.mem_cons_self
      · refine (ih h).imp (List.mem_cons_of_mem _) ?_
        rintro ⟨x', hx', rfl⟩
        exact ⟨x', List.mem_cons_of_mem _ hx', rfl⟩

theorem frames_modifyInnermost (c : Context) (change : Frame → Frame) :
    (c.modifyInnermost change).frames = c.frames.modify 0 change := by
  unfold modifyInnermost frames
  cases c.locals <;> rfl

/-! ## Reading from the frames -/

theorem find?_eq (name : String) (fs : List Frame) :
    find? name fs = fs.findSome? (·.get? name) := by
  induction fs with
  | nil => rfl
  | cons f outer ih =>
    rw [find?, List.findSome?_cons, ih]
    cases f.get? name <;> rfl

theorem lookup_eq (c : Context) (name : String) :
    c.lookup name = (c.frames.map (·.get? (Name.normalize name))).findSome? id := by
  unfold lookup frames
  dsimp only
  rw [find?_eq, List.findSome?_map, List.findSome?_append, List.findSome?_singleton]
  simp only [Function.comp_def, id_eq]
  cases c.locals.findSome? (·.get? (Name.normalize name)) <;> rfl

theorem lookupGlobal_eq (c : Context) (name : String) :
    c.lookupGlobal name = ((c.frames.map (·.get? (Name.normalize name))).getLast?).bind id := by
  simp [lookupGlobal, frames]

theorem binding_eq (c : Context) (i : Nat) (name : String) :
    c.binding i name = ((c.frames.map (·.get? name))[i]?).bind id := by
  rw [binding, List.getElem?_map, Option.bind_map, Function.id_comp]

/-! ## Operations -/

/-- What can be done with a variable. -/
inductive Write
  | assign (v : Value)
  | setGlobal (v : Value)
  | update (v : Value)
  | elevate (v : Value)
  | remove

/-- The context after something is done with a variable. Elevating where there is no global variable
of that name changes nothing. -/
def write (c : Context) (name : String) : Write → Context
  | .assign v => c.assign name v
  | .setGlobal v => c.setGlobal name v
  | .update v => c.update name v
  | .elevate v => (c.elevate name v).toOption.getD c
  | .remove => (c.remove name).2

/-- Something that is done to a context. -/
inductive Operation
  | on (name : String) (w : Write)
  | pushScope
  | popScope

def perform (c : Context) : Operation → Context
  | .on name w => c.write name w
  | .pushScope => c.pushScope
  | .popScope => c.popScope.2

/-- A new context after some operations. -/
def after (ops : List Operation) : Context := ops.foldl perform empty

/-- Whatever is done with a variable changes at most one frame, and there the normal form of its
name only. -/
theorem frames_write (c : Context) (name : String) (w : Write) :
    ∃ i change, Frame.Touches (Name.normalize name) change ∧
      (c.write name w).frames = c.frames.modify i change := by
  cases w with
  | assign v => exact ⟨_, _, Frame.touches_insert _ v, frames_assign c name v⟩
  | setGlobal v => exact ⟨_, _, Frame.touches_insert _ v, frames_setGlobal c name v⟩
  | update v => exact ⟨_, _, Frame.touches_insert _ v, frames_update c name v⟩
  | elevate v =>
    cases h : c.elevate name v with
    | ok c' =>
      obtain ⟨-, rfl⟩ := elevate_eq_ok h
      have hwrite : c.write name (.elevate v) = c.setGlobal name v := by
        rw [write, h]
        rfl
      rw [hwrite]
      exact ⟨_, _, Frame.touches_insert _ v, frames_setGlobal c name v⟩
    | error fault =>
      refine ⟨0, id, Frame.touches_id _, ?_⟩
      rw [write, h, List.modify_id]
      rfl
  | remove => exact ⟨_, _, Frame.touches_erase _, frames_modifyInnermost c _⟩

/-! ## Normal forms -/

/-- Every name of every frame is its own normal form. -/
def Canonical (c : Context) : Prop := ∀ f ∈ c.frames, ∀ name ∈ f.names, Name.normalize name = name

theorem canonical_empty : empty.Canonical := by
  intro f hf name hname
  rw [List.mem_singleton.1 hf] at hname
  cases hname

theorem canonical_write (h : c.Canonical) (name : String) (w : Write) :
    (c.write name w).Canonical := by
  obtain ⟨i, change, htouches, hframes⟩ := frames_write c name w
  intro f hf other hother
  rw [hframes] at hf
  rcases mem_modify hf with hf | ⟨g, hg, rfl⟩
  · exact h f hf other hother
  · rcases htouches.names g other hother with rfl | hother
    · exact Name.normalize_normalize name
    · exact h g hg other hother

theorem canonical_perform (h : c.Canonical) (op : Operation) : (c.perform op).Canonical := by
  cases op with
  | on name w => exact canonical_write h name w
  | pushScope =>
    intro f hf
    rcases List.mem_cons.1 hf with rfl | hf
    · intro name hname
      cases hname
    · exact h f hf
  | popScope =>
    by_cases houter : c.outer = []
    -- the global frame stays
    · have hlocals : c.locals = [] := by
        cases hlocals : c.locals with
        | nil => rfl
        | cons f fs =>
          rw [outer_of_locals hlocals] at houter
          cases List.append_ne_nil_of_right_ne_nil fs (List.cons_ne_nil _ _) houter
      rwa [perform, popScope, hlocals]
    · intro f hf
      rw [perform, frames_popScope houter] at hf
      exact h f (List.mem_of_mem_tail hf)

theorem canonical_after (ops : List Operation) : (after ops).Canonical := by
  induction ops using List.reverseRecOn with
  | nil => exact canonical_empty
  | append_singleton ops op ih =>
    rw [after, List.foldl_concat]
    exact canonical_perform ih op

/-- A global variable is found under the name that lists it. -/
theorem lookupGlobal_of_mem_globalNames (h : c.Canonical) (hname : name ∈ c.globalNames) :
    ∃ v, c.lookupGlobal name = some v ∧ (name, v) ∈ c.globals.bindings := by
  have hnames : name ∈ c.globals.names := (Sorting.stable_perm _ _).mem_iff.1 hname
  have hnormal : Name.normalize name = name :=
    h c.globals (List.mem_append_right _ List.mem_cons_self) name hnames
  rw [lookupGlobal, hnormal]
  exact Frame.exists_of_mem_names hnames

/-! ## Two spellings -/

/-- Two spellings cannot be told apart: they read the same, and whatever is done under one of them
does, answers and fails the same as under the other. -/
structure SameBinding (c : Context) (a b : String) : Prop where
  lookup : c.lookup a = c.lookup b
  lookupGlobal : c.lookupGlobal a = c.lookupGlobal b
  contains : c.contains a = c.contains b
  elevate : ∀ v, c.elevate a v = c.elevate b v
  remove : c.remove a = c.remove b
  write : ∀ w, c.write a w = c.write b w

/-- Nothing that is done under one spelling changes what any frame has under the other, nor what is
read there. -/
structure Apart (c : Context) (a b : String) : Prop where
  binding : ∀ w i, (c.write a w).binding i (Name.normalize b) = c.binding i (Name.normalize b)
  lookup : ∀ w, (c.write a w).lookup b = c.lookup b
  lookupGlobal : ∀ w, (c.write a w).lookupGlobal b = c.lookupGlobal b

theorem sameBinding_of_normalize_eq (c : Context) (h : Name.normalize a = Name.normalize b) :
    c.SameBinding a b where
  lookup := by simp only [Context.lookup, h]
  lookupGlobal := by simp only [Context.lookupGlobal, h]
  contains := by simp only [Context.contains, Context.lookup, h]
  elevate v := by simp only [Context.elevate, h]
  remove := by simp only [Context.remove, h]
  write w := by
    cases w <;> simp only [Context.write, assign, setGlobal, update, Context.elevate,
      Context.remove, h]

theorem apart_of_normalize_ne (c : Context) (h : Name.normalize a ≠ Name.normalize b) :
    c.Apart a b := by
  have hsame : ∀ w, (c.write a w).frames.map (·.get? (Name.normalize b)) =
      c.frames.map (·.get? (Name.normalize b)) := by
    intro w
    obtain ⟨i, change, htouches, hframes⟩ := frames_write c a w
    rw [hframes]
    exact map_modify_of (fun f => htouches.get? f _ h.symm) _ _
  refine ⟨fun w i => ?_, fun w => ?_, fun w => ?_⟩
  · rw [binding_eq, binding_eq, hsame]
  · rw [lookup_eq, lookup_eq, hsame]
  · rw [lookupGlobal_eq, lookupGlobal_eq, hsame]

/-- Two spellings of one normal form are not apart: what is assigned under one is read under the
other. -/
theorem not_apart (hsame : c.SameBinding a b) : ¬ c.Apart a b := by
  intro hapart
  have hread : ∀ v, c.lookup b = some v := by
    intro v
    rw [← hapart.lookup (.assign v), hsame.write (.assign v)]
    exact lookup_assign c b v
  have heq := (hread (.int 0)).symm.trans (hread (.int 1))
  cases heq

theorem sameBinding_iff (c : Context) (a b : String) :
    c.SameBinding a b ↔ Name.normalize a = Name.normalize b := by
  refine ⟨fun hsame => ?_, sameBinding_of_normalize_eq c⟩
  by_contra h
  exact not_apart hsame (apart_of_normalize_ne c h)

theorem apart_iff (c : Context) (a b : String) :
    c.Apart a b ↔ Name.normalize a ≠ Name.normalize b :=
  ⟨fun hapart h => not_apart (sameBinding_of_normalize_eq c h) hapart, apart_of_normalize_ne c⟩

/-- Normal forms are normal forms of themselves and have no blanks. Whatever is done to a new
context, every name that a frame has is in normal form, every global variable is found under the
name that lists it, and two spellings stand for the same variable if their normal forms are equal
and for variables that have nothing to do with each other if they are not. -/
theorem names_stay_canonical :
    (∀ name, Name.normalize (Name.normalize name) = Name.normalize name ∧
      ∀ c ∈ (Name.normalize name).toList, Text.isBlank c = false) ∧
    ∀ ops, (after ops).Canonical ∧
      (∀ name ∈ (after ops).globalNames, ∃ v,
        (after ops).lookupGlobal name = some v ∧ (name, v) ∈ (after ops).globals.bindings) ∧
      ∀ a b, ((after ops).SameBinding a b ↔ Name.normalize a = Name.normalize b) ∧
        ((after ops).Apart a b ↔ Name.normalize a ≠ Name.normalize b) := by
  refine ⟨fun name => ⟨Name.normalize_normalize name, fun c hc => ?_⟩, fun ops => ⟨?_, ?_, ?_⟩⟩
  · exact (Name.of_mem_normalize hc).1
  · exact canonical_after ops
  · exact fun name hname => lookupGlobal_of_mem_globalNames (canonical_after ops) hname
  · exact fun a b => ⟨sameBinding_iff _ a b, apart_iff _ a b⟩

end Context

end DiceScript
