import DiceScript.Proofs.Value.Discipline

/-!
Shapes of values. A comparison of values takes arrays and pairs apart and comes down to what it
reads the stats in them as. What is left of a value when its stats are read and its aliases are gone
is its shape, and two values agree exactly if all their stats can be read and their shapes are one.
-/

namespace DiceScript.Value

variable {P : Stat → Prop} {read : Stat → Value} {a b c k v : Value} {es fs : List Value}
  {ks : Option Aliases} {s : Stat}

/-- An induction over the parts of values. -/
@[elab_as_elim]
theorem inductionOn {motive : Value → Prop} (plain : ∀ v, v.isPlain = true → motive v)
    (stat : ∀ s, motive (.stat s))
    (array : ∀ es ks, (∀ e ∈ es, motive e) → motive (.array es ks))
    (pair : ∀ k v, motive k → motive v → motive (.pair k v)) : ∀ v, motive v
  | .array es ks => array es ks fun e _ => inductionOn plain stat array pair e
  | .pair k v =>
    pair k v (inductionOn plain stat array pair k) (inductionOn plain stat array pair v)
  | .stat s => stat s
  | .int _ | .str _ | .range _ | .function _ | .expression _ | .symbol _ | .bonus _ | .removal _
  | .error _ => plain _ rfl

/-! ## The stats in a value -/

/-- All stats that occur in a value have a property. -/
def AllStats (P : Stat → Prop) (v : Value) : Prop := ∀ s, (stat s).Occurs v → P s

theorem allStats_array : (array es ks).AllStats P ↔ ∀ e ∈ es, e.AllStats P := by
  constructor
  · exact fun h e he s hs => h s (.element he hs)
  · intro h s hs
    cases hs with
    | element he hs => exact h _ he s hs

theorem allStats_pair : (pair k v).AllStats P ↔ k.AllStats P ∧ v.AllStats P := by
  constructor
  · exact fun h => ⟨fun s hs => h s (.key hs), fun s hs => h s (.value hs)⟩
  · rintro ⟨hk, hv⟩ s hs
    cases hs with
    | key hs => exact hk s hs
    | value hs => exact hv s hs

theorem allStats_stat : (stat s).AllStats P ↔ P s := by
  constructor
  · exact fun h => h s .here
  · intro h t ht
    cases ht
    exact h

theorem allStats_of_plain (h : v.isPlain = true) : v.AllStats P := by
  intro s hs
  cases hs <;> cases h

/-! ## Element by element -/

/-- What a comparison of lists that takes the elements one by one comes to. -/
theorem all_iff {agree : Value → Value → Bool} {all : List Value → List Value → Bool}
    (hnone : all [] [] = true)
    (hboth : ∀ e es f fs, all (e :: es) (f :: fs) = (agree e f && all es fs))
    (hleft : ∀ e es, all (e :: es) [] = false) (hright : ∀ f fs, all [] (f :: fs) = false) :
    all es fs = true ↔ List.Forall₂ (fun e f => agree e f = true) es fs := by
  induction es generalizing fs with
  | nil =>
    cases fs with
    | nil => exact iff_of_true hnone .nil
    | cons f fs => simp [hright]
  | cons e es ih =>
    cases fs with
    | nil => simp [hleft]
    | cons f fs => rw [hboth, Bool.and_eq_true, ih, List.forall₂_cons]

/-! ## Shapes -/

mutual

/-- A value without the aliases of its arrays, with each stat read as some value. -/
def shape (read : Stat → Value) : Value → Value
  | array elements _ => array (shapes read elements) none
  | pair key value => pair (key.shape read) (value.shape read)
  | stat s => read s
  | v => v

/-- The shapes of the elements of an array. -/
def shapes (read : Stat → Value) : List Value → List Value
  | [] => []
  | v :: vs => v.shape read :: shapes read vs

end

theorem shape_of_plain (h : v.isPlain = true) : v.shape read = v := by
  cases v with
  | array | pair | stat => cases h
  | _ => rfl

/-- Only a stat may have the shape of a plain value that it is not. -/
theorem eq_shape_iff (ha : a.isPlain = true) :
    a = b.shape read ↔ a = b ∨ ∃ s, b = .stat s ∧ a = read s := by
  constructor
  · intro h
    cases b with
    | stat s => exact .inr ⟨s, rfl, h⟩
    | array | pair =>
      rw [h] at ha
      cases ha
    | _ => exact .inl h
  · rintro (rfl | ⟨s, rfl, h⟩)
    · exact (shape_of_plain ha).symm
    · exact h

/-- A comparison that takes arrays and pairs apart and goes by what the stats that it can read are
read as. -/
structure Agrees (agree : Value → Value → Bool) (P : Stat → Prop) (read : Stat → Value) :
    Prop where
  arrays (es fs : List Value) (ks ls : Option Aliases) :
    agree (.array es ks) (.array fs ls) = true ↔ List.Forall₂ (fun e f => agree e f = true) es fs
  array_other (es : List Value) (ks : Option Aliases) {b : Value} (hb : b.isArray = false) :
    agree (.array es ks) b = false
  pairs (k l v w : Value) : agree (.pair k v) (.pair l w) = (agree k l && agree v w)
  pair_other (k v : Value) {b : Value} (hb : b.isPair = false) : agree (.pair k v) b = false
  stat (s : Stat) (b : Value) :
    agree (.stat s) b = true ↔ P s ∧ b.AllStats P ∧ read s = b.shape read
  plain {a : Value} (ha : a.isPlain = true) (b : Value) :
    agree a b = true ↔ b.AllStats P ∧ a = b.shape read
  atomic (s : Stat) : (read s).isArray = false ∧ (read s).isPair = false

namespace Agrees

variable {agree : Value → Value → Bool}

theorem array (h : Agrees agree P read) : agree (.array es ks) b = true ↔
    ∃ fs ls, b = .array fs ls ∧ List.Forall₂ (fun e f => agree e f = true) es fs := by
  constructor
  · intro hb
    cases b with
    | array fs ls => exact ⟨fs, ls, rfl, (h.arrays es fs ks ls).1 hb⟩
    | _ =>
      rw [h.array_other es ks rfl] at hb
      cases hb
  · rintro ⟨fs, ls, rfl, hb⟩
    exact (h.arrays es fs ks ls).2 hb

theorem pair (h : Agrees agree P read) : agree (.pair k v) b = true ↔
    ∃ l w, b = .pair l w ∧ agree k l = true ∧ agree v w = true := by
  constructor
  · intro hb
    cases b with
    | pair l w =>
      rw [h.pairs, Bool.and_eq_true] at hb
      exact ⟨l, w, rfl, hb⟩
    | _ =>
      rw [h.pair_other k v rfl] at hb
      cases hb
  · rintro ⟨l, w, rfl, hb⟩
    rw [h.pairs, Bool.and_eq_true]
    exact hb

theorem shape_eq_array (h : Agrees agree P read) (heq : .array es ks = b.shape read) :
    ∃ fs ls, b = .array fs ls ∧ es = shapes read fs := by
  cases b with
  | array fs ls =>
    cases heq
    exact ⟨fs, ls, rfl, rfl⟩
  | stat s =>
    have hatom := (h.atomic s).1
    rw [show read s = .array es ks from heq.symm] at hatom
    cases hatom
  | _ => cases heq

theorem shape_eq_pair (h : Agrees agree P read) (heq : .pair k v = b.shape read) :
    ∃ l w, b = .pair l w ∧ k = l.shape read ∧ v = w.shape read := by
  cases b with
  | pair l w =>
    cases heq
    exact ⟨l, w, rfl, rfl, rfl⟩
  | stat s =>
    have hatom := (h.atomic s).2
    rw [show read s = .pair k v from heq.symm] at hatom
    cases hatom
  | _ => cases heq

/-- Lists agree element by element if their elements do. -/
theorem forall₂_iff
    (h : ∀ e ∈ es, ∀ f, agree e f = true ↔
      e.AllStats P ∧ f.AllStats P ∧ e.shape read = f.shape read) :
    List.Forall₂ (fun e f => agree e f = true) es fs ↔
      (∀ e ∈ es, e.AllStats P) ∧ (∀ f ∈ fs, f.AllStats P) ∧ shapes read es = shapes read fs := by
  induction es generalizing fs with
  | nil =>
    cases fs with
    | nil => simp
    | cons f fs => simp [shapes]
  | cons e es ih =>
    obtain ⟨he, hes⟩ := List.forall_mem_cons.1 h
    cases fs with
    | nil => simp [shapes]
    | cons f fs =>
      rw [List.forall₂_cons, he, ih hes, List.forall_mem_cons, List.forall_mem_cons, shapes, shapes,
        List.cons.injEq]
      tauto

/-- Two values agree exactly if their stats can be read and their shapes are one. The induction is
on the parts of the first value. -/
theorem iff_shape (h : Agrees agree P read) (a b : Value) :
    agree a b = true ↔ a.AllStats P ∧ b.AllStats P ∧ a.shape read = b.shape read := by
  induction a using inductionOn generalizing b with
  | plain a ha =>
    rw [h.plain ha, shape_of_plain ha]
    exact (and_iff_right (allStats_of_plain ha)).symm
  | stat s => rw [h.stat, allStats_stat, shape]
  | array es ks ih =>
    rw [h.array]
    constructor
    · rintro ⟨fs, ls, rfl, hparts⟩
      obtain ⟨hes, hfs, hshapes⟩ := (forall₂_iff ih).1 hparts
      refine ⟨allStats_array.2 hes, allStats_array.2 hfs, ?_⟩
      rw [shape, shape, hshapes]
    · rintro ⟨hes, hb, hshape⟩
      rw [shape] at hshape
      obtain ⟨fs, ls, rfl, hshapes⟩ := h.shape_eq_array hshape
      exact ⟨fs, ls, rfl, (forall₂_iff ih).2 ⟨allStats_array.1 hes, allStats_array.1 hb, hshapes⟩⟩
  | pair k v ihk ihv =>
    rw [h.pair]
    constructor
    · rintro ⟨l, w, rfl, hkey, hvalue⟩
      obtain ⟨hk, hl, hkl⟩ := (ihk l).1 hkey
      obtain ⟨hv, hw, hvw⟩ := (ihv w).1 hvalue
      refine ⟨allStats_pair.2 ⟨hk, hv⟩, allStats_pair.2 ⟨hl, hw⟩, ?_⟩
      rw [shape, shape, hkl, hvw]
    · rintro ⟨ha, hb, hshape⟩
      rw [shape] at hshape
      obtain ⟨l, w, rfl, hkl, hvw⟩ := h.shape_eq_pair hshape
      obtain ⟨hk, hv⟩ := allStats_pair.1 ha
      obtain ⟨hl, hw⟩ := allStats_pair.1 hb
      exact ⟨l, w, rfl, (ihk l).2 ⟨hk, hl, hkl⟩, (ihv w).2 ⟨hv, hw, hvw⟩⟩

theorem refl_iff (h : Agrees agree P read) : agree a a = true ↔ a.AllStats P := by
  rw [h.iff_shape]
  exact ⟨And.left, fun ha => ⟨ha, ha, rfl⟩⟩

theorem symm (h : Agrees agree P read) (hab : agree a b = true) : agree b a = true := by
  obtain ⟨ha, hb, hshape⟩ := (h.iff_shape a b).1 hab
  exact (h.iff_shape b a).2 ⟨hb, ha, hshape.symm⟩

theorem trans (h : Agrees agree P read) (hab : agree a b = true) (hbc : agree b c = true) :
    agree a c = true := by
  obtain ⟨ha, -, hshape⟩ := (h.iff_shape a b).1 hab
  obtain ⟨-, hc, hshape'⟩ := (h.iff_shape b c).1 hbc
  exact (h.iff_shape a c).2 ⟨ha, hc, hshape.trans hshape'⟩

end Agrees

end DiceScript.Value
