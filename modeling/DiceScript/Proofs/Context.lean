import DiceScript.Context
import Mathlib

/-!
What the variables of a context hold. Reading a variable gives a value that the context holds, and
writing one leaves the context holding what it held and the value written.
-/

namespace DiceScript

variable {v w : Value} {name : String}

namespace Frame

/-- A name of the frame has the value. -/
def Holds (f : Frame) (v : Value) : Prop := ∃ name, (name, v) ∈ f.bindings

theorem mem_of_get? {f : Frame} (h : f.get? name = some v) : (name, v) ∈ f.bindings := by
  obtain ⟨before, after, heq, -⟩ := List.lookup_eq_some_iff.1 h
  rw [heq]
  exact List.mem_append_right _ List.mem_cons_self

theorem holds_of_get? {f : Frame} (h : f.get? name = some v) : f.Holds v := ⟨name, mem_of_get? h⟩

theorem mem_bind {bindings : List (String × Value)} {binding : String × Value}
    (h : binding ∈ bind name v bindings) : binding = (name, v) ∨ binding ∈ bindings := by
  induction bindings with
  | nil => exact .inl (List.mem_singleton.1 h)
  | cons first rest ih =>
    obtain ⟨other, u⟩ := first
    unfold bind at h
    split at h
    · rcases List.mem_cons.1 h with h | h
      · exact .inl h
      · exact .inr (List.mem_cons_of_mem _ h)
    · rcases List.mem_cons.1 h with rfl | h
      · exact .inr List.mem_cons_self
      · exact (ih h).imp_right (List.mem_cons_of_mem _)

theorem holds_insert {f : Frame} (h : (f.insert name v).Holds w) : w = v ∨ f.Holds w := by
  obtain ⟨other, hmem⟩ := h
  rcases mem_bind hmem with heq | hmem
  · exact .inl (Prod.mk.inj heq).2
  · exact .inr ⟨other, hmem⟩

end Frame

namespace Context

variable {c : Context}

/-- A name of some frame has the value. -/
def Holds (c : Context) (v : Value) : Prop := ∃ f ∈ c.frames, f.Holds v

theorem holds_iff : c.Holds v ↔ (∃ f ∈ c.locals, f.Holds v) ∨ c.globals.Holds v := by
  simp [Holds, frames, or_and_right, exists_or]

/-! ## Reading -/

theorem holds_of_find? {fs : List Frame} (h : find? name fs = some v) :
    ∃ f ∈ fs, f.Holds v := by
  induction fs with
  | nil => cases h
  | cons f outer ih =>
    unfold find? at h
    split at h
    case h_1 u hu =>
      cases h
      exact ⟨f, List.mem_cons_self, Frame.holds_of_get? hu⟩
    case h_2 =>
      obtain ⟨g, hg, hv⟩ := ih h
      exact ⟨g, List.mem_cons_of_mem _ hg, hv⟩

theorem holds_of_lookup (h : c.lookup name = some v) : c.Holds v := by
  rw [holds_iff]
  unfold lookup at h
  dsimp only at h
  split at h
  case h_1 u hu =>
    cases h
    exact .inl (holds_of_find? hu)
  case h_2 => exact .inr (Frame.holds_of_get? h)

/-! ## Writing -/

theorem holds_assign (h : (c.assign name v).Holds w) : w = v ∨ c.Holds w := by
  rw [holds_iff] at h ⊢
  unfold assign modifyInnermost at h
  split at h
  case h_1 hlocals =>
    rcases h with ⟨f, hf, hw⟩ | hw
    · exact .inr (.inl ⟨f, hf, hw⟩)
    · exact (Frame.holds_insert hw).imp_right .inr
  case h_2 f outer hlocals =>
    rw [hlocals]
    rcases h with ⟨g, hg, hw⟩ | hw
    · rcases List.mem_cons.1 hg with rfl | hg
      · exact (Frame.holds_insert hw).imp_right fun hw => .inl ⟨f, List.mem_cons_self, hw⟩
      · exact .inr (.inl ⟨g, List.mem_cons_of_mem _ hg, hw⟩)
    · exact .inr (.inr hw)

theorem holds_setGlobal (h : (c.setGlobal name v).Holds w) : w = v ∨ c.Holds w := by
  rw [holds_iff] at h ⊢
  rcases h with h | h
  · exact .inr (.inl h)
  · exact (Frame.holds_insert h).imp_right .inr

theorem holds_overwrite? {fs gs : List Frame} (h : overwrite? name v fs = some gs)
    (hw : ∃ g ∈ gs, g.Holds w) : w = v ∨ ∃ f ∈ fs, f.Holds w := by
  induction fs generalizing gs with
  | nil => cases h
  | cons f outer ih =>
    unfold overwrite? at h
    split at h
    · cases h
      obtain ⟨g, hg, hw⟩ := hw
      rcases List.mem_cons.1 hg with rfl | hg
      · exact (Frame.holds_insert hw).imp_right fun hw => ⟨f, List.mem_cons_self, hw⟩
      · exact .inr ⟨g, List.mem_cons_of_mem _ hg, hw⟩
    -- the frame does not have the name, so an outer one was written
    · obtain ⟨gs, hgs, rfl⟩ := Option.map_eq_some_iff.1 h
      obtain ⟨g, hg, hw⟩ := hw
      rcases List.mem_cons.1 hg with rfl | hg
      · exact .inr ⟨g, List.mem_cons_self, hw⟩
      · refine (ih hgs ⟨g, hg, hw⟩).imp_right ?_
        rintro ⟨f', hf', hw'⟩
        exact ⟨f', List.mem_cons_of_mem _ hf', hw'⟩

theorem holds_update (h : (c.update name v).Holds w) : w = v ∨ c.Holds w := by
  unfold update at h
  dsimp only at h
  split at h
  case h_1 locals hlocals =>
    rw [holds_iff] at h ⊢
    rcases h with h | h
    · exact (holds_overwrite? hlocals h).imp_right .inl
    · exact .inr (.inr h)
  case h_2 =>
    split at h
    · exact holds_setGlobal h
    · exact holds_assign h

theorem holds_elevate {c' : Context} (hc : c.elevate name v = .ok c') (h : c'.Holds w) :
    w = v ∨ c.Holds w := by
  unfold elevate at hc
  dsimp only at hc
  split at hc
  · cases hc
    exact holds_setGlobal h
  · cases hc

/-! ## Calls -/

theorem holds_pushScope (h : c.pushScope.Holds w) : c.Holds w := by
  rw [holds_iff] at h ⊢
  rcases h with ⟨f, hf, hw⟩ | h
  · rcases List.mem_cons.1 hf with rfl | hf
    · obtain ⟨other, hmem⟩ := hw
      cases hmem
    · exact .inl ⟨f, hf, hw⟩
  · exact .inr h

theorem holds_popScope (h : c.popScope.1.Holds w ∨ c.popScope.2.Holds w) : c.Holds w := by
  rw [holds_iff]
  unfold popScope at h
  split at h
  case h_1 hlocals =>
    rcases h with ⟨other, hmem⟩ | h
    · cases hmem
    · rw [holds_iff] at h
      exact h
  case h_2 f outer hlocals =>
    rw [hlocals]
    rcases h with h | h
    · exact .inl ⟨f, List.mem_cons_self, h⟩
    · rcases holds_iff.1 h with ⟨g, hg, hw⟩ | h
      · exact .inl ⟨g, List.mem_cons_of_mem _ hg, hw⟩
      · exact .inr h

end Context

end DiceScript
