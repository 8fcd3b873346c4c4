import DiceScript.Proofs.Value.Discipline

/-!
The slot that an assignment through indices is about. The indices lead into it before the
assignment and after it, and of every array on the way the rest stays as it is. One array is looked
at first, with the element that an index means there, then the way through all indices.
-/

namespace DiceScript

namespace Items

/-- Of two arrays one has the other's elements and keys, apart from the value of the element at a
position. -/
structure ChangedAt (position : Nat) (before after : Items) : Prop where
  within : position < before.size
  size : after.size = before.size
  others : ∀ other, other ≠ position → after.elements[other]? = before.elements[other]?
  key : (after.elements[position]?).map (·.splitPair.1) =
    (before.elements[position]?).map (·.splitPair.1)

/-- Of two arrays one has the other's elements, and after them a pair whose key the other does not
find. -/
structure Appended (key : String) (v : Value) (before after : Items) : Prop where
  absent : before.keyPosition? key = none
  elements : after.elements = before.elements ++ [.pair (.str key) v]

end Items

namespace Value

/-- The value that an index leads to in an array, without its key. -/
def enter? (container index : Value) : Option Value :=
  match container with
  | array es ks =>
    match slot ⟨es, ks⟩ index with
    | .ok (.element position) => (es[position]?).map unwrapPair
    | _ => none
  | _ => none

/-- The value that indices lead to, one after another. -/
def reach? (container : Value) (indices : List Value) : Option Value :=
  indices.foldlM enter? container

theorem reach?_cons (container index : Value) (rest : List Value) :
    container.reach? (index :: rest) = (container.enter? index).bind (·.reach? rest) :=
  List.foldlM_cons

/-! ## Values that are no pairs -/

theorem splitPair_snd (v : Value) : v.splitPair.2 = v.unwrapPair := by
  cases v <;> rfl

theorem splitPair_joinPair_splitPair {updated : Value} (element : Value)
    (h : updated.isPair = false) :
    (joinPair element.splitPair.1 updated).splitPair = (element.splitPair.1, updated) := by
  cases element with
  | pair => rfl
  | _ => cases updated <;> first | rfl | cases h

theorem isPair_arithmetic (op : BinaryOp) (a b : Value) : (arithmetic op a b).isPair = false := by
  unfold arithmetic
  split
  · split <;> rfl
  · rfl

theorem isPair_plus (a b : Value) : (plus a b).isPair = false := by
  unfold plus
  split <;> first | rfl | exact isPair_arithmetic _ _ _

theorem isPair_minus (a b : Value) : (minus a b).isPair = false := by
  unfold minus
  split <;> first | rfl | exact isPair_arithmetic _ _ _

theorem isPair_combine (op : BinaryOp) (a b : Value) : (combine op a b).isPair = false := by
  cases op with
  | add => exact isPair_plus a b
  | subtract => exact isPair_minus a b
  | multiply | divide | remainder => exact isPair_arithmetic _ _ _
  | less | greater | lessEqual | greaterEqual =>
    simp only [combine, relate]
    split <;> rfl
  | hasFlag | range =>
    simp only [combine, onNumbers]
    split <;> rfl
  | equal | unequal | getBonus | or | and => rfl

theorem isPair_of_isError {v : Value} (h : v.isError = true) : v.isPair = false := by
  cases v <;> first | rfl | cases h

theorem isPair_binary (op : BinaryOp) (a b : Value) : (binary op a b).isPair = false := by
  unfold binary
  split
  case h_1 | h_2 => rfl
  case h_3 =>
    split
    case isTrue ha => exact isPair_of_isError ha
    case isFalse =>
      split
      case isTrue hb => exact isPair_of_isError hb
      case isFalse =>
        split
        · rfl
        · exact isPair_combine op a b

theorem isPair_assignedStat {op : AssignOp} {s : Stat} {v : Value} (h : v.isPair = false) :
    (assignedStat op s v).isPair = false := by
  unfold assignedStat
  split
  case h_2 => exact h
  case h_7 =>
    split
    · split <;> rfl
    · rfl
  all_goals rfl

/-- What is assigned is no pair, unless a pair is set. -/
theorem isPair_assigned {op : AssignOp} {old v : Value} (h : v.isPair = false) :
    (assigned op old v).isPair = false := by
  unfold assigned
  split
  case h_1 => exact isPair_assignedStat h
  case h_2 =>
    split
    · exact isPair_binary _ _ _
    · exact h
    · rfl

theorem isPair_assignPath {container v : Value} {op : AssignOp} {indices : List Value}
    {r : Value × Value} (hv : v.isPair = false) (h : assignPath container op v indices = .ok r) :
    r.1.isPair = false := by
  cases indices with
  | nil =>
    obtain ⟨-, rfl⟩ := assignPath_nil h
    exact isPair_assigned hv
  | cons index rest =>
    obtain ⟨es, ks, -, ⟨key, -, -, -, rfl⟩ | ⟨position, element, whole, updated, -, -, -, -, hr⟩⟩ :=
      assignPath_cons h
    · rfl
    · rw [hr]
      rfl

/-! ## One array and one index -/

theorem slot_element {a : Items} {index : Value} {position : Nat}
    (h : slot a index = .ok (.element position)) (element : Value)
    (helement : a.elements[position]? = some element) :
    a.toValue.enter? index = some element.unwrapPair := by
  simp only [Items.toValue, enter?, h, helement, Option.map_some]

theorem slot_missing {a : Items} {index : Value} {key : String}
    (h : slot a index = .ok (.missing key)) : index = .str key ∧ a.keyPosition? key = none := by
  unfold slot at h
  split at h
  case h_1 => split at h <;> cases h
  case h_2 name =>
    split at h
    case h_1 => cases h
    case h_2 habsent =>
      cases h
      exact ⟨rfl, habsent⟩
  case h_3 => cases h

/-- Whether an element has a name depends on its key alone. -/
theorem isNamed_eq_of_key {v w : Value} (h : v.splitPair.1 = w.splitPair.1) (name : String) :
    Aliases.isNamed name v = Aliases.isNamed name w := by
  have hkey : ∀ u : Value,
      Aliases.isNamed name u = u.splitPair.1.any (Aliases.nameOf · == name) := by
    intro u
    cases u <;> rfl
  rw [hkey, hkey, h]

section Set

variable {a : Items} {position : Nat} {old new : Value}

/-- A key is found where it was if an element is changed behind its key. -/
theorem keyPosition?_set (h : a.Faithful) (hold : a.elements[position]? = some old)
    (hkey : new.splitPair.1 = old.splitPair.1) (key : String) :
    (a.set position new).keyPosition? key = a.keyPosition? key := by
  have hfaithful : (a.set position new).Faithful := Items.faithful_ofList _
  have hnames : (a.elements.set position new).map (Aliases.isNamed (Name.normalize key)) =
      a.elements.map (Aliases.isNamed (Name.normalize key)) := by
    rw [List.map_set, isNamed_eq_of_key hkey]
    refine List.ext_getElem? fun i => ?_
    rw [List.getElem?_set]
    grind
  rw [Items.keyPosition?_of_faithful h, Items.keyPosition?_of_faithful hfaithful]
  have hfind := congrArg (List.findIdx? id) hnames
  rwa [List.findIdx?_map, List.findIdx?_map] at hfind

/-- Every index leads where it led if an element is changed behind its key. -/
theorem slot_set (h : a.Faithful) (hold : a.elements[position]? = some old)
    (hkey : new.splitPair.1 = old.splitPair.1) (index : Value) :
    slot (a.set position new) index = slot a index := by
  have hsize : (a.set position new).size = a.size := List.length_set
  cases index with
  | str key => simp only [slot, keyPosition?_set h hold hkey]
  | int i => simp only [slot, hsize]
  | _ => rfl

theorem changedAt_set (hold : a.elements[position]? = some old)
    (hkey : new.splitPair.1 = old.splitPair.1) :
    Items.ChangedAt position a (a.set position new) where
  within := (List.getElem?_eq_some_iff.1 hold).1
  size := List.length_set
  others other hother := List.getElem?_set_ne hother.symm
  key := by
    have hnew : (a.set position new).elements[position]? = some new :=
      List.getElem?_set_self (List.getElem?_eq_some_iff.1 hold).1
    rw [hnew, hold, Option.map_some, Option.map_some, hkey]

end Set

/-- A pair with a new key is found at the end. -/
theorem keyPosition?_push {a : Items} {key : String} (h : a.keyPosition? key = none) (v : Value) :
    (a.push (.pair (.str key) v)).keyPosition? key = some a.size := by
  have hnew : (a.keys.getD []).lookup (Name.normalize key) = none := by
    cases hkeys : a.keys with
    | none => rfl
    | some table =>
      rw [Items.keyPosition?, hkeys] at h
      exact h
  have hname : Aliases.nameOf (.str key) = Name.normalize key := rfl
  simp only [Items.keyPosition?, Items.push, Option.bind_some]
  rw [Aliases.lookup_register, hnew, hname, if_pos rfl, Option.none_or]

theorem enter?_push {a : Items} {key : String} (h : a.keyPosition? key = none) (v : Value) :
    (a.push (.pair (.str key) v)).toValue.enter? (.str key) = some v := by
  have hslot : slot (a.push (.pair (.str key) v)) (.str key) = .ok (.element a.size) := by
    simp only [slot, keyPosition?_push h]
  exact slot_element hslot (.pair (.str key) v) List.getElem?_concat_length

/-- What an assignment does at its first index. It goes on behind the key of one element, and what
comes of that takes the place of the value there, or it puts a pair at the end. -/
theorem step_of_assignPath {container v index updated result : Value} {op : AssignOp}
    {rest : List Value} (hfaithful : container.Faithful) (hv : v.isPair = false)
    (h : assignPath container op v (index :: rest) = .ok (updated, result)) :
    ∃ before after : Items, container = before.toValue ∧ updated = after.toValue ∧
      ((∃ position old new, slot before index = .ok (.element position) ∧
          slot after index = .ok (.element position) ∧ Items.ChangedAt position before after ∧
          before.toValue.enter? index = some old ∧ after.toValue.enter? index = some new ∧
          old.Faithful ∧ assignPath old op v rest = .ok (new, result)) ∨
        (rest = [] ∧ op = .set ∧ result = v ∧ before.toValue.enter? index = none ∧
          after.toValue.enter? index = some v ∧
          ∃ key, index = .str key ∧ Items.Appended key v before after)) := by
  obtain ⟨es, ks, rfl, hcases⟩ := assignPath_cons h
  rcases hcases with ⟨key, hslot, hrest, hop, hr⟩ |
    ⟨position, element, whole, inner, hslot, helement, hwhole, hpath, hr⟩
  · obtain ⟨rfl, habsent⟩ := slot_missing hslot
    cases hr
    have hnone : (Items.mk es ks).toValue.enter? (.str key) = none := by
      simp only [Items.toValue, enter?, hslot]
    exact ⟨⟨es, ks⟩, _, rfl, rfl, .inr ⟨hrest, hop, rfl, hnone, enter?_push habsent v, key, rfl,
      habsent, rfl⟩⟩
  -- no pair is assigned, so the key of the element stays
  · rw [hv, Bool.and_false] at hwhole
    subst hwhole
    replace hfaithful : (Items.mk es ks).toValue.Faithful := hfaithful
    replace helement : (Items.mk es ks).elements[position]? = some element := helement
    have hentrance : entrance false element = element.splitPair := rfl
    rw [hentrance] at hpath hr
    rw [splitPair_snd] at hpath
    have hinner : inner.isPair = false := isPair_assignPath hv hpath
    have hsplit := splitPair_joinPair_splitPair element hinner
    have hkey : (joinPair element.splitPair.1 inner).splitPair.1 = element.splitPair.1 := by
      rw [hsplit]
    have hafter := slot_set hfaithful.items helement hkey index
    rw [hslot] at hafter
    have hchanged := changedAt_set helement hkey
    have hnew := slot_element hafter _ (List.getElem?_set_self hchanged.within)
    rw [← splitPair_snd, hsplit] at hnew
    exact ⟨⟨es, ks⟩, _, rfl, hr, .inl ⟨position, element.unwrapPair, inner, hslot, hafter, hchanged,
      slot_element hslot element helement, hnew,
      hfaithful.element (List.mem_of_getElem? helement), hpath⟩⟩

/-! ## The whole way -/

section Way

variable {container v updated result : Value} {op : AssignOp} {indices : List Value}

theorem reach?_assignPath (hfaithful : container.Faithful) (hv : v.isPair = false)
    (h : assignPath container op v indices = .ok (updated, result)) :
    updated.reach? indices = some result := by
  induction indices generalizing container updated with
  | nil =>
    obtain ⟨-, hr⟩ := assignPath_nil h
    cases hr
    rfl
  | cons index rest ih =>
    obtain ⟨before, after, rfl, rfl, ⟨position, old, new, -, -, -, -, hnew, hold, hpath⟩ |
      ⟨rfl, -, rfl, -, hnew, -⟩⟩ := step_of_assignPath hfaithful hv h
    · rw [reach?_cons, hnew, Option.bind_some]
      exact ih hold hpath
    · rw [reach?_cons, hnew]
      rfl

/-- What is assigned is made of what the indices led to, or else it is put under a new key. -/
theorem result_assignPath (hfaithful : container.Faithful) (hv : v.isPair = false)
    (h : assignPath container op v indices = .ok (updated, result)) :
    (∃ old, container.reach? indices = some old ∧ result = assigned op old v) ∨
      (container.reach? indices = none ∧ op = .set ∧ result = v) := by
  induction indices generalizing container updated with
  | nil =>
    obtain ⟨-, hr⟩ := assignPath_nil h
    cases hr
    exact .inl ⟨container, rfl, rfl⟩
  | cons index rest ih =>
    obtain ⟨before, after, rfl, rfl, ⟨position, old, new, -, -, -, hentered, -, hold, hpath⟩ |
      ⟨rfl, hop, rfl, hnone, -⟩⟩ := step_of_assignPath hfaithful hv h
    · rw [reach?_cons, hentered, Option.bind_some]
      exact ih hold hpath
    · rw [reach?_cons, hnone]
      exact .inr ⟨rfl, hop, rfl⟩

/-- Of every array on the way one element is changed, or a pair is put at the end of the last. The
induction follows the way, so `front` leads to the array of the first index or into what an index
leads to. -/
theorem levels_assignPath (hfaithful : container.Faithful) (hv : v.isPair = false)
    (h : assignPath container op v indices = .ok (updated, result)) (front : List Value)
    (index : Value) (back : List Value) (hindices : indices = front ++ index :: back) :
    ∃ before after : Items, container.reach? front = some before.toValue ∧
      updated.reach? front = some after.toValue ∧
      ((∃ position, slot before index = .ok (.element position) ∧
          slot after index = .ok (.element position) ∧ Items.ChangedAt position before after) ∨
        (back = [] ∧ op = .set ∧ ∃ key, index = .str key ∧ Items.Appended key v before after)) := by
  induction indices generalizing container updated front with
  | nil => simp at hindices
  | cons first rest ih =>
    obtain ⟨before, after, rfl, rfl, hstep⟩ := step_of_assignPath hfaithful hv h
    cases front with
    | nil =>
      obtain ⟨rfl, rfl⟩ := List.cons.inj hindices
      refine ⟨before, after, rfl, rfl, ?_⟩
      obtain ⟨position, old, new, hbefore, hafter, hchanged, -⟩ |
        ⟨hlast, hop, -, -, -, happended⟩ := hstep
      · exact .inl ⟨position, hbefore, hafter, hchanged⟩
      · exact .inr ⟨hlast, hop, happended⟩
    | cons first' front =>
      obtain ⟨rfl, hrest⟩ := List.cons.inj hindices
      obtain ⟨position, old, new, -, -, -, hentered, hnew, hold, hpath⟩ | ⟨hlast, -⟩ := hstep
      · rw [reach?_cons, reach?_cons, hentered, hnew]
        exact ih hold hpath front hrest
      -- a pair is only put at the end of the last array
      · rw [hlast] at hrest
        simp at hrest

end Way

/-- An assignment through indices changes only the slot that they lead to, if all arrays have the
aliases that their elements ought to have and no pair is assigned. The indices lead to the assigned
value afterwards. In every array on the way the index leads to the same position as before, and the
other elements, the key of the element there and the size stay, except that a key that the last
array does not have is put at its end with the value. What is assigned is made of what the indices
led to before. -/
theorem an_assignment_changes_only_its_slot (container v updated result : Value) (op : AssignOp)
    (indices : List Value) (hfaithful : container.Faithful) (hv : v.isPair = false)
    (h : assignPath container op v indices = .ok (updated, result)) :
    updated.reach? indices = some result ∧
      (∀ front index back, indices = front ++ index :: back →
        ∃ before after : Items, container.reach? front = some before.toValue ∧
          updated.reach? front = some after.toValue ∧
          ((∃ position, slot before index = .ok (.element position) ∧
              slot after index = .ok (.element position) ∧
              Items.ChangedAt position before after) ∨
            (back = [] ∧ op = .set ∧
              ∃ key, index = .str key ∧ Items.Appended key v before after))) ∧
      ((∃ old, container.reach? indices = some old ∧ result = assigned op old v) ∨
        (container.reach? indices = none ∧ op = .set ∧ result = v)) :=
  ⟨reach?_assignPath hfaithful hv h, levels_assignPath hfaithful hv h,
    result_assignPath hfaithful hv h⟩

/-- A number, and a pair that holds an array of numbers. -/
def ranks : Value :=
  ofList [.int 1, .pair (.str "Hit Points") (ofList [.int 7, .int 9])]

/-- An integer index from the end and a key in another case lead to a slot within a pair. The key of
the pair stays. -/
theorem the_last_hit_points_are_raised :
    ranks.Faithful ∧ ∃ updated,
      assignPath ranks .add (.int 5) [.str "hit points", .int (-1)] = .ok (updated, .int 14) ∧
      updated = ofList [.int 1, .pair (.str "Hit Points") (ofList [.int 7, .int 14])] ∧
      updated.reach? [.str "hit points", .int (-1)] = some (.int 14) ∧
      ∃ old, ranks.reach? [.str "hit points", .int (-1)] = some old ∧
        .int 14 = assigned .add old (.int 5) := by
  have hplain : ∀ n : Integer, (Value.int n).Faithful := fun n => Faithful.of_plain rfl
  have hpoints : (ofList [.int 7, .int 9]).Faithful := by
    refine Faithful.ofList ?_
    simp only [List.forall_mem_cons]
    exact ⟨hplain 7, hplain 9, nofun⟩
  have hranks : ranks.Faithful := by
    refine Faithful.ofList ?_
    simp only [List.forall_mem_cons]
    exact ⟨hplain 1, Faithful.pair (Faithful.of_plain rfl) hpoints, nofun⟩
  have hassign : assignPath ranks .add (.int 5) [.str "hit points", .int (-1)] =
      .ok (ofList [.int 1, .pair (.str "Hit Points") (ofList [.int 7, .int 14])], .int 14) := by cbv
  obtain ⟨hreach, -, hresult⟩ :=
    an_assignment_changes_only_its_slot ranks (.int 5) _ _ .add _ hranks rfl hassign
  refine ⟨hranks, _, hassign, rfl, hreach, ?_⟩
  rcases hresult with hold | ⟨-, hset, -⟩
  · exact hold
  · cases hset

end Value

end DiceScript
