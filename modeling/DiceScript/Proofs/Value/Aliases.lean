import DiceScript.Value.Items
import Mathlib

/-!
The aliases of an array against a scan of its elements. The aliases that elements ought to have are
told of all elements at once, and both ways to come by aliases are held against them: the elements
may be gone through from the first to the last, and an element at the end may be registered on its
own.
-/

namespace DiceScript

theorem Value.pair_or_not_pair (v : Value) :
    (∃ key value, v = .pair key value) ∨ v.isPair = false := by
  cases v <;> simp [isPair]

namespace Aliases

/-- Whether an element is a pair whose key has a name. -/
def isNamed (name : String) : Value → Bool
  | .pair key _ => nameOf key == name
  | _ => false

/-- The alias that an element at a position gives, if the element is the first pair with its
name. -/
def firstAlias? (elements : List Value) : Value × Nat → Option (String × Nat)
  | (.pair key _, position) =>
    if elements.findIdx? (isNamed (nameOf key)) = some position then some (nameOf key, position)
    else none
  | _ => none

/-- The aliases that elements ought to have: the name of every pair, with the position of the first
pair that has it. Without a pair there are none. -/
def expected (elements : List Value) : Option Aliases :=
  if elements.any Value.isPair then some (elements.zipIdx.filterMap (firstAlias? elements))
  else none

/-! ## Finding a name -/

theorem isNamed_of_not_pair {v : Value} (h : v.isPair = false) (name : String) :
    isNamed name v = false := by
  cases v with
  | pair => cases h
  | _ => rfl

theorem firstAlias?_of_not_pair {v : Value} (h : v.isPair = false) (elements : List Value)
    (position : Nat) : firstAlias? elements (v, position) = none := by
  cases v with
  | pair => cases h
  | _ => rfl

theorem registerAll_of_not_pair {v : Value} (h : v.isPair = false) (table : Aliases)
    (position : Nat) (rest : List Value) :
    registerAll table position (v :: rest) = registerAll table (position + 1) rest := by
  cases v with
  | pair => cases h
  | _ => rfl

theorem lookup_register (table : Aliases) (taken name : String) (position : Nat) :
    (table.register taken position).lookup name =
      (table.lookup name).or (if taken = name then some position else none) := by
  unfold register
  split
  -- the name is taken, so nothing changes, not even for the name itself
  case isTrue h =>
    by_cases hname : taken = name
    · obtain ⟨p, hp⟩ := Option.isSome_iff_exists.1 h
      rw [← hname, hp, Option.some_or]
    · rw [if_neg hname, Option.or_none]
  case isFalse =>
    rw [List.lookup_append]
    by_cases hname : taken = name
    · simp [hname]
    · have hne : (name == taken) = false := by simp [Ne.symm hname]
      simp [List.lookup_cons, hname, hne]

theorem register_ne_nil (table : Aliases) (name : String) (position : Nat) :
    table.register name position ≠ [] := by
  unfold register
  split
  case isTrue h =>
    rintro rfl
    cases h
  case isFalse => simp

/-- A name among registered elements stands for what it stood for before, or else for the first pair
that has it. -/
theorem lookup_registerAll (table : Aliases) (position : Nat) (elements : List Value)
    (name : String) :
    (registerAll table position elements).lookup name =
      (table.lookup name).or ((elements.findIdx? (isNamed name)).map (position + ·)) := by
  induction elements generalizing table position with
  | nil => simp [registerAll]
  | cons v rest ih =>
    rw [List.findIdx?_cons]
    rcases v.pair_or_not_pair with ⟨key, value, rfl⟩ | hpair
    · rw [registerAll, ih, lookup_register, Option.or_assoc]
      by_cases hname : nameOf key = name
      · simp [isNamed, hname]
      · simp [isNamed, hname, Function.comp_def, Nat.add_comm, Nat.add_left_comm]
    · rw [registerAll_of_not_pair hpair, ih, isNamed_of_not_pair hpair]
      simp [Function.comp_def, Nat.add_comm, Nat.add_left_comm]

theorem registerAll_append (table : Aliases) (position : Nat) (a b : List Value) :
    registerAll table position (a ++ b) =
      registerAll (registerAll table position a) (position + a.length) b := by
  induction a generalizing table position with
  | nil => rfl
  | cons v rest ih =>
    have hlength : position + 1 + rest.length = position + (v :: rest).length := by
      rw [List.length_cons]
      omega
    rw [List.cons_append, ← hlength]
    rcases v.pair_or_not_pair with ⟨key, value, rfl⟩ | hpair
    · exact ih _ _
    · rw [registerAll_of_not_pair hpair, registerAll_of_not_pair hpair]
      exact ih _ _

/-! ## The aliases that elements ought to have -/

/-- The element at the end of a list is the first with its name if no element before it has the
name. -/
theorem firstAlias?_last (elements : List Value) (key value : Value) :
    firstAlias? (elements ++ [.pair key value]) (.pair key value, elements.length) =
      if (elements.findIdx? (isNamed (nameOf key))).isSome then none
      else some (nameOf key, elements.length) := by
  simp only [firstAlias?, List.findIdx?_append]
  cases hfound : elements.findIdx? (isNamed (nameOf key)) with
  | none => simp [isNamed]
  | some p =>
    have hlt : p < elements.length := (List.findIdx?_eq_some_iff_getElem.1 hfound).1
    simp
    omega

/-- What comes after an element does not keep it from being the first with its name. -/
theorem firstAlias?_append (elements more : List Value) (entry : Value × Nat)
    (h : entry ∈ elements.zipIdx) :
    firstAlias? (elements ++ more) entry = firstAlias? elements entry := by
  obtain ⟨v, position⟩ := entry
  rcases v.pair_or_not_pair with ⟨key, value, rfl⟩ | hpair
  · have hmem : Value.pair key value ∈ elements := List.fst_mem_of_mem_zipIdx h
    have hsome : (elements.findIdx? (isNamed (nameOf key))).isSome := by
      rw [List.findIdx?_isSome, List.any_eq_true]
      exact ⟨_, hmem, by simp [isNamed]⟩
    simp only [firstAlias?, List.findIdx?_append, Option.or_of_isSome hsome]
  · rw [firstAlias?_of_not_pair hpair, firstAlias?_of_not_pair hpair]

/-- Going through elements from the first to the last registers the first pair of every name. -/
theorem registerAll_eq_firstAliases (elements : List Value) :
    registerAll [] 0 elements = elements.zipIdx.filterMap (firstAlias? elements) := by
  induction elements using List.reverseRecOn with
  | nil => rfl
  | append_singleton elements v ih =>
    -- an element at the end takes no alias from those before it, and gives one if its name is new
    have hbefore : elements.zipIdx.filterMap (firstAlias? (elements ++ [v])) =
        elements.zipIdx.filterMap (firstAlias? elements) :=
      List.filterMap_congr fun entry hentry => firstAlias?_append elements [v] entry hentry
    rw [registerAll_append, List.zipIdx_append, List.filterMap_append, hbefore, ← ih, Nat.zero_add]
    rcases v.pair_or_not_pair with ⟨key, value, rfl⟩ | hpair
    · have htaken : (registerAll [] 0 elements).lookup (nameOf key) =
          elements.findIdx? (isNamed (nameOf key)) := by
        simp [lookup_registerAll]
      simp only [registerAll, register, htaken, List.zipIdx_singleton, List.filterMap_cons,
        firstAlias?_last]
      split <;> simp
    · simp [registerAll_of_not_pair hpair, firstAlias?_of_not_pair hpair, registerAll]

/-- There are aliases exactly if there is a pair. -/
theorem registerAll_eq_nil_iff (elements : List Value) :
    registerAll [] 0 elements = [] ↔ elements.any Value.isPair = false := by
  induction elements using List.reverseRecOn with
  | nil => simp [registerAll]
  | append_singleton elements v ih =>
    rw [registerAll_append, List.any_append, Bool.or_eq_false_iff, ← ih]
    rcases v.pair_or_not_pair with ⟨key, value, rfl⟩ | hpair
    · simp only [registerAll, List.any_cons, Value.isPair, Bool.true_or, Bool.true_eq_false,
        and_false, iff_false]
      exact register_ne_nil _ _ _
    · rw [registerAll_of_not_pair hpair]
      simp [registerAll, hpair]

theorem ofElements_eq_none_iff (elements : List Value) :
    ofElements elements = none ↔ elements.any Value.isPair = false := by
  rw [← registerAll_eq_nil_iff]
  unfold ofElements
  split <;> simp_all

theorem getD_ofElements (elements : List Value) :
    (ofElements elements).getD [] = registerAll [] 0 elements := by
  unfold ofElements
  split
  case h_1 h => exact h.symm
  case h_2 => rfl

/-- The aliases that are registered are those that the elements ought to have. -/
theorem ofElements_eq_expected (elements : List Value) :
    ofElements elements = expected elements := by
  unfold expected
  rw [← registerAll_eq_firstAliases, ← getD_ofElements]
  split
  case isTrue hpair =>
    cases hkeys : ofElements elements with
    | none => simp [(ofElements_eq_none_iff elements).1 hkeys] at hpair
    | some table => rfl
  case isFalse hpair =>
    exact (ofElements_eq_none_iff elements).2 (Bool.eq_false_iff.2 hpair)

/-- An element at the end of elements is registered on its own as it would be with all others. -/
theorem ofElements_concat (elements : List Value) (key value : Value) :
    ofElements (elements ++ [.pair key value]) =
      some (((ofElements elements).getD []).register (nameOf key) elements.length) := by
  have htable : registerAll [] 0 (elements ++ [.pair key value]) =
      ((ofElements elements).getD []).register (nameOf key) elements.length := by
    rw [registerAll_append, getD_ofElements, Nat.zero_add]
    rfl
  rw [← htable, ← getD_ofElements]
  cases hkeys : ofElements (elements ++ [.pair key value]) with
  | none =>
    have hpair := (ofElements_eq_none_iff _).1 hkeys
    simp [Value.isPair] at hpair
  | some table => rfl

theorem ofElements_concat_of_not_pair (elements : List Value) {v : Value}
    (h : v.isPair = false) : ofElements (elements ++ [v]) = ofElements elements := by
  unfold ofElements
  rw [registerAll_append, registerAll_of_not_pair h]
  rfl

end Aliases

namespace Items

/-! ## Arrays whose aliases are those of their elements -/

/-- An array is faithful if its aliases are those that its elements ought to have. -/
def Faithful (a : Items) : Prop := a.keys = Aliases.expected a.elements

theorem faithful_ofList (elements : List Value) : (ofList elements).Faithful :=
  Aliases.ofElements_eq_expected elements

theorem faithful_push {a : Items} (h : a.Faithful) (v : Value) : (a.push v).Faithful := by
  unfold Faithful at h ⊢
  rw [← Aliases.ofElements_eq_expected] at h ⊢
  rcases v.pair_or_not_pair with ⟨key, value, rfl⟩ | hpair
  · rw [push, Aliases.ofElements_concat, h]
    rfl
  · have hpush : a.push v = ⟨a.elements ++ [v], a.keys⟩ := by
      cases v with
      | pair => cases hpair
      | _ => rfl
    rw [hpush, Aliases.ofElements_concat_of_not_pair _ hpair]
    exact h

/-- What a key of a faithful array finds is what a scan of its elements finds: the first pair whose
key has the normal form of the key for its name. -/
structure FindsByScan (a : Items) (key : String) : Prop where
  position : a.keyPosition? key = a.elements.findIdx? (Aliases.isNamed (Name.normalize key))
  value : a.getKey? key =
    (a.elements.find? (Aliases.isNamed (Name.normalize key))).map Value.unwrapPair
  within : ∀ p, a.keyPosition? key = some p → p < a.elements.length

theorem keyPosition?_of_faithful {a : Items} (h : a.Faithful) (key : String) :
    a.keyPosition? key = a.elements.findIdx? (Aliases.isNamed (Name.normalize key)) := by
  have hlookup := Aliases.lookup_registerAll [] 0 a.elements (Name.normalize key)
  simp only [List.lookup_nil, Option.none_or, Nat.zero_add, Option.map_id'] at hlookup
  unfold Faithful at h
  rw [keyPosition?, h, ← Aliases.ofElements_eq_expected, ← hlookup, ← Aliases.getD_ofElements]
  cases Aliases.ofElements a.elements <;> rfl

theorem findsByScan_of_faithful {a : Items} (h : a.Faithful) (key : String) :
    a.FindsByScan key where
  position := keyPosition?_of_faithful h key
  value := by
    rw [getKey?, keyPosition?_of_faithful h, List.find?_eq_bind_findIdx?_getElem?,
      Option.map_bind]
    rfl
  within p hp := by
    rw [keyPosition?_of_faithful h] at hp
    exact (List.findIdx?_eq_some_iff_getElem.1 hp).1

end Items

end DiceScript
