import DiceScript.Proofs.Value.Aliases
import DiceScript.Proofs.Value.Parts

/-!
Disciplines: properties that values have all the way down. A discipline is told of one value at a
time, and it is kept if every array, pair and stat that an operation makes has it. Whatever
operations do with values then keeps it too.
-/

namespace DiceScript

/-- A value occurs in another: it is that value, or it occurs in an element, a key or a value of
it. -/
inductive Value.Occurs (w : Value) : Value → Prop
  | here : Occurs w w
  | element {es ks e} : e ∈ es → Occurs w e → Occurs w (.array es ks)
  | key {k v} : Occurs w k → Occurs w (.pair k v)
  | value {k v} : Occurs w v → Occurs w (.pair k v)

/-- What all values that occur in an array have. -/
theorem Value.forall_occurs_array {P : Value → Prop} {es : List Value} {ks : Option Aliases} :
    (∀ w, w.Occurs (.array es ks) → P w) ↔
      P (.array es ks) ∧ ∀ e ∈ es, ∀ w, w.Occurs e → P w := by
  constructor
  · intro h
    exact ⟨h _ .here, fun e he w hw => h w (.element he hw)⟩
  · rintro ⟨hnode, hparts⟩ w hw
    cases hw with
    | here => exact hnode
    | element he hw => exact hparts _ he w hw

/-- What all values that occur in a pair have. -/
theorem Value.forall_occurs_pair {P : Value → Prop} {a b : Value} :
    (∀ w, w.Occurs (.pair a b) → P w) ↔
      P (.pair a b) ∧ (∀ w, w.Occurs a → P w) ∧ ∀ w, w.Occurs b → P w := by
  constructor
  · intro h
    exact ⟨h _ .here, fun w hw => h w (.key hw), fun w hw => h w (.value hw)⟩
  · rintro ⟨hnode, ha, hb⟩ w hw
    cases hw with
    | here => exact hnode
    | key hw => exact ha w hw
    | value hw => exact hb w hw

/-- Whether a value is neither made of other values nor a stat. -/
def Value.isPlain (v : Value) : Bool := !v.isArray && !v.isPair && !v.isStat

/-- What all values that occur in a plain value have. -/
theorem Value.forall_occurs_plain {P : Value → Prop} {v : Value} (h : v.isPlain = true) :
    (∀ w, w.Occurs v → P w) ↔ P v := by
  constructor
  · exact fun hall => hall v .here
  · intro hv w hw
    cases hw with
    | here => exact hv
    | element => cases h
    | key => cases h
    | value => cases h

/-- A property of values that operations keep. It says what a value must be like apart from its
parts, and which values may be parts of others. -/
structure Discipline where
  node : Value → Prop
  part : Value → Prop
  plain {v : Value} : v.isPlain = true → node v
  part_of_not_error {v : Value} : v.isError = false → part v
  part_of_element {es ks e} : node (.array es ks) → e ∈ es → part e
  part_of_pair {k v} : node (.pair k v) → part k ∧ part v
  node_pair {k v} : part k → part v → node (.pair k v)
  node_ofList {es} : (∀ e ∈ es, part e) → node (.ofList es)
  node_push {es ks v} : node (.array es ks) → part v → node ((Items.mk es ks).push v).toValue
  node_add {s b} : node (.stat s) → node (.stat (s.add b))
  node_remove {s b} : node (.stat s) → node (.stat (s.remove b))
  node_setBase {s n} : node (.stat s) → node (.stat (s.setBase n))

namespace Discipline

open Value

variable {d : Discipline} {a b v w : Value} {es fs : List Value} {ks ls : Option Aliases}

/-- Every value that occurs in a value is as the discipline has it. -/
def Obeys (d : Discipline) (v : Value) : Prop := ∀ w, w.Occurs v → d.node w

/-- A value that obeys and may be a part of others. -/
def Storable (d : Discipline) (v : Value) : Prop := d.Obeys v ∧ d.part v

/-! ## Values and their parts -/

theorem obeys_array : d.Obeys (.array es ks) ↔ d.node (.array es ks) ∧ ∀ e ∈ es, d.Obeys e :=
  forall_occurs_array

theorem obeys_pair : d.Obeys (.pair a b) ↔ d.node (.pair a b) ∧ d.Obeys a ∧ d.Obeys b :=
  forall_occurs_pair

theorem obeys_of_plain (h : v.isPlain = true) : d.Obeys v :=
  (forall_occurs_plain h).2 (d.plain h)

theorem obeys_stat {s : Stat} : d.Obeys (.stat s) ↔ d.node (.stat s) := by
  constructor
  · exact fun h => h _ .here
  · intro h w hw
    cases hw
    exact h

theorem storable_of_not_error (h : d.Obeys v) (hv : v.isError = false) : d.Storable v :=
  ⟨h, d.part_of_not_error hv⟩

theorem storable_of_plain (h : v.isPlain = true) (hv : v.isError = false) : d.Storable v :=
  storable_of_not_error (obeys_of_plain h) hv

theorem storable_elements (h : d.Obeys (.array es ks)) : ∀ e ∈ es, d.Storable e := by
  obtain ⟨hnode, hparts⟩ := obeys_array.1 h
  exact fun e he => ⟨hparts e he, d.part_of_element hnode he⟩

theorem storable_of_pair (h : d.Obeys (.pair a b)) : d.Storable a ∧ d.Storable b := by
  obtain ⟨hnode, ha, hb⟩ := obeys_pair.1 h
  obtain ⟨hpartA, hpartB⟩ := d.part_of_pair hnode
  exact ⟨⟨ha, hpartA⟩, ⟨hb, hpartB⟩⟩

theorem obeys_pair_of_storable (ha : d.Storable a) (hb : d.Storable b) : d.Obeys (.pair a b) :=
  obeys_pair.2 ⟨d.node_pair ha.2 hb.2, ha.1, hb.1⟩

theorem storable_unwrapPair (h : d.Storable v) : d.Storable v.unwrapPair := by
  cases v with
  | pair k w => exact (storable_of_pair h.1).2
  | _ => exact h

theorem storable_splitPair (h : d.Storable v) :
    (∀ key, v.splitPair.1 = some key → d.Storable key) ∧ d.Storable v.splitPair.2 := by
  cases v with
  | pair k w =>
    obtain ⟨hk, hw⟩ := storable_of_pair h.1
    refine ⟨?_, hw⟩
    rintro key ⟨⟩
    exact hk
  | _ => exact ⟨nofun, h⟩

theorem storable_joinPair {key : Option Value} (hkey : ∀ k, key = some k → d.Storable k)
    (h : d.Storable v) : d.Storable (joinPair key v) := by
  cases key with
  | none => exact h
  | some k => exact storable_of_not_error (obeys_pair_of_storable (hkey k rfl) h) rfl

theorem storable_entrance (whole : Bool) (h : d.Storable v) :
    (∀ key, (entrance whole v).1 = some key → d.Storable key) ∧
      d.Storable (entrance whole v).2 := by
  cases whole with
  | true => exact ⟨nofun, h⟩
  | false => exact storable_splitPair h

/-! ## Arrays -/

theorem obeys_ofList (h : ∀ e ∈ es, d.Storable e) : d.Obeys (Value.ofList es) :=
  obeys_array.2 ⟨d.node_ofList fun e he => (h e he).2, fun e he => (h e he).1⟩

theorem obeys_push (h : d.Obeys (.array es ks)) (hv : d.Storable v) :
    d.Obeys ((Items.mk es ks).push v).toValue := by
  refine obeys_array.2 ⟨d.node_push (h _ .here) hv.2, ?_⟩
  intro e he
  rcases List.mem_append.1 he with he | he
  · exact (storable_elements h e he).1
  · rw [List.mem_singleton.1 he]
    exact hv.1

theorem obeys_append (h : d.Obeys (.array es ks)) (h' : d.Obeys (.array fs ls)) :
    d.Obeys ((Items.mk es ks).append ⟨fs, ls⟩).toValue := by
  refine obeys_ofList ?_
  intro e he
  rcases List.mem_append.1 he with he | he
  · exact storable_elements h e he
  · exact storable_elements h' e he

theorem obeys_set (h : d.Obeys (.array es ks)) (position : Nat) (hv : d.Storable v) :
    d.Obeys ((Items.mk es ks).set position v).toValue := by
  refine obeys_ofList ?_
  intro e he
  rcases List.mem_or_eq_of_mem_set he with he | rfl
  · exact storable_elements h e he
  · exact hv

/-! ## Indexing -/

theorem obeys_getKey? (h : d.Obeys (.array es ks)) {key : String}
    (hv : (Items.mk es ks).getKey? key = some v) : d.Obeys v := by
  obtain ⟨p, -, hp⟩ := Option.bind_eq_some_iff.1 hv
  obtain ⟨e, he, rfl⟩ := Option.map_eq_some_iff.1 hp
  exact (storable_unwrapPair (storable_elements h e (List.mem_of_getElem? he))).1

theorem obeys_at? {container index : Value} (h : d.Obeys container)
    (hv : container.at? index = .ok v) : d.Obeys v := by
  unfold at? at hv
  split at hv
  case h_1 => exact (storable_elements h v (mem_of_part hv)).1
  case h_2 es ks key =>
    split at hv
    case h_1 w hw =>
      cases hv
      exact obeys_getKey? h hw
    case h_2 => cases hv
  case h_3 es ks r =>
    obtain ⟨xs, hxs, rfl⟩ := map_eq_ok_iff.1 hv
    exact obeys_ofList fun e he => storable_elements h e (mem_of_slice hxs e he)
  case h_4 =>
    obtain ⟨c, -, rfl⟩ := map_eq_ok_iff.1 hv
    exact obeys_of_plain rfl
  case h_5 =>
    obtain ⟨cs, -, rfl⟩ := map_eq_ok_iff.1 hv
    exact obeys_of_plain rfl
  case h_6 =>
    split at hv <;> cases hv
    exact obeys_of_plain rfl
  case h_7 => cases hv

/-! ## Operators -/

theorem obeys_arithmetic (op : BinaryOp) (a b : Value) : d.Obeys (arithmetic op a b) := by
  unfold arithmetic
  split
  · split <;> exact obeys_of_plain rfl
  · exact obeys_of_plain rfl

theorem obeys_add {s : Stat} (h : d.Obeys (.stat s)) (c : Bonus) : d.Obeys (.stat (s.add c)) :=
  obeys_stat.2 (d.node_add (obeys_stat.1 h))

theorem obeys_remove {s : Stat} (h : d.Obeys (.stat s)) (c : Bonus) :
    d.Obeys (.stat (s.remove c)) :=
  obeys_stat.2 (d.node_remove (obeys_stat.1 h))

theorem obeys_setBase {s : Stat} (h : d.Obeys (.stat s)) (n : Integer) :
    d.Obeys (.stat (s.setBase n)) :=
  obeys_stat.2 (d.node_setBase (obeys_stat.1 h))

theorem obeys_plus (ha : d.Obeys a) (hb : d.Storable b) : d.Obeys (plus a b) := by
  unfold plus
  split
  case h_1 => exact obeys_append ha hb.1
  case h_2 => exact obeys_push ha hb
  case h_3 => exact obeys_add ha _
  case h_4 => exact obeys_add hb.1 _
  case h_5 => exact obeys_remove ha _
  case h_6 => exact obeys_remove hb.1 _
  case h_7 => exact obeys_of_plain rfl
  case h_8 => exact obeys_of_plain rfl
  case h_9 => exact obeys_arithmetic _ _ _

theorem obeys_minus (ha : d.Obeys a) : d.Obeys (minus a b) := by
  unfold minus
  split
  case h_1 => exact obeys_remove ha _
  case h_2 => exact obeys_add ha _
  case h_3 => exact obeys_arithmetic _ _ _

theorem obeys_relate (op : BinaryOp) (holds : Ordering → Bool) (a b : Value) :
    d.Obeys (relate op holds a b) := by
  unfold relate
  split <;> exact obeys_of_plain rfl

theorem obeys_onNumbers (op : BinaryOp) {apply : Integer → Integer → Value}
    (h : ∀ m n, d.Obeys (apply m n)) (a b : Value) : d.Obeys (onNumbers op apply a b) := by
  unfold onNumbers
  split
  · exact h _ _
  · exact obeys_of_plain rfl

theorem obeys_combine (op : BinaryOp) (ha : d.Obeys a) (hb : d.Storable b) :
    d.Obeys (combine op a b) := by
  cases op with
  | add => exact obeys_plus ha hb
  | subtract => exact obeys_minus ha
  | multiply | divide | remainder => exact obeys_arithmetic _ _ _
  | less | greater | lessEqual | greaterEqual => exact obeys_relate _ _ _ _
  | hasFlag | range => exact obeys_onNumbers _ (fun _ _ => obeys_of_plain rfl) _ _
  | equal | unequal | getBonus | or | and => exact obeys_of_plain rfl

theorem obeys_binary (op : BinaryOp) (ha : d.Obeys a) (hb : d.Obeys b) :
    d.Obeys (Value.binary op a b) := by
  unfold Value.binary
  split
  case h_1 => exact obeys_of_plain rfl
  case h_2 => exact obeys_of_plain rfl
  case h_3 =>
    split
    · exact ha
    · split
      · exact hb
      -- only here may the right operand become an element of the left one
      case isFalse hnot =>
        split
        · exact obeys_of_plain rfl
        · exact obeys_combine op ha (storable_of_not_error hb (Bool.eq_false_iff.2 hnot))

theorem obeys_negate (v : Value) : d.Obeys v.negate := by
  unfold negate
  split
  · exact obeys_of_plain rfl
  · split
    · exact obeys_of_plain rfl
    · exact obeys_of_plain rfl
    · split <;> exact obeys_of_plain rfl

theorem obeys_unary (op : UnaryOp) (h : d.Obeys v) : d.Obeys (Value.unary op v) := by
  unfold Value.unary
  split
  · exact h
  · cases op with
    | negate => exact obeys_negate v
    | not | stringify => exact obeys_of_plain rfl
    | baseOf => cases v <;> exact obeys_of_plain rfl

theorem obeys_joined (ha : d.Storable a) (hb : d.Storable b) : d.Obeys (joined a b) := by
  have hsingle : d.Obeys (Value.ofList [a]) := obeys_ofList fun e he => by
    rw [List.mem_singleton.1 he]
    exact ha
  unfold joined
  split
  case h_1 => exact obeys_append ha.1 hb.1
  case h_2 => exact obeys_push ha.1 hb
  case h_3 => exact obeys_append hsingle hb.1
  case h_4 =>
    refine obeys_ofList fun e he => ?_
    rcases List.mem_cons.1 he with rfl | he
    · exact ha
    · rw [List.mem_singleton.1 he]
      exact hb

theorem obeys_arranged (ha : d.Obeys a) (b : Value) : d.Obeys (arranged a b) := by
  unfold arranged
  split
  case h_1 direction es ks hdirection =>
    refine obeys_ofList fun e he => storable_elements ha e ?_
    unfold sorted at he
    split at he
    · exact (Sorting.stable_perm _ _).mem_iff.1 he
    · split at he
      · exact (Sorting.stable_perm _ _).mem_iff.1 he
      · exact he
  case h_2 => exact obeys_of_plain rfl

/-! ## Assignments -/

theorem obeys_assignedStat (op : AssignOp) {s : Stat} (hs : d.Obeys (.stat s)) (hv : d.Obeys v) :
    d.Obeys (assignedStat op s v) := by
  unfold assignedStat
  split
  case h_1 => exact obeys_setBase hs _
  case h_2 => exact hv
  case h_3 => exact obeys_add hs _
  case h_4 => exact obeys_remove hs _
  case h_5 => exact obeys_remove hs _
  case h_6 => exact obeys_add hs _
  case h_7 =>
    split
    · split
      · exact obeys_setBase hs _
      · exact obeys_of_plain rfl
    · exact obeys_of_plain rfl
  case h_8 => exact obeys_of_plain rfl

theorem obeys_assigned (op : AssignOp) (ha : d.Obeys a) (hv : d.Obeys v) :
    d.Obeys (assigned op a v) := by
  unfold assigned
  split
  case h_1 => exact obeys_assignedStat op ha hv
  case h_2 =>
    split
    · exact obeys_binary _ ha hv
    · exact hv
    · exact obeys_of_plain rfl

/-- The induction is on the indices. Whatever is put in the place of an element on the way is no
error, since an error ends the assignment. -/
theorem storable_assignPath (op : AssignOp) (hv : d.Storable v) (indices : List Value) (a : Value)
    (ha : d.Obeys a) (r : Value × Value) (h : assignPath a op v indices = .ok r) :
    d.Storable r.1 ∧ d.Obeys r.2 := by
  induction indices generalizing a r with
  | nil =>
    have hassigned : d.Obeys (assigned op a v) := obeys_assigned op ha hv.1
    obtain ⟨hnot, rfl⟩ := assignPath_nil h
    exact ⟨storable_of_not_error hassigned hnot, hassigned⟩
  | cons index rest ih =>
    obtain ⟨es, ks, rfl, hcases⟩ := assignPath_cons h
    rcases hcases with ⟨key, -, -, -, rfl⟩ |
      ⟨position, element, whole, updated, -, helement, -, hpath, hr⟩
    · have hkey : d.Storable (.str key) := storable_of_plain rfl rfl
      have hpair : d.Storable (.pair (.str key) v) :=
        storable_of_not_error (obeys_pair_of_storable hkey hv) rfl
      exact ⟨storable_of_not_error (obeys_push ha hpair) rfl, hv.1⟩
    -- into an element and back: its key is kept, and what comes back is no error
    · have hstorable := storable_elements ha element (List.mem_of_getElem? helement)
      obtain ⟨hkey, hinner⟩ := storable_entrance whole hstorable
      obtain ⟨hupdated, hresult⟩ := ih _ hinner.1 _ hpath
      have hjoined := storable_joinPair hkey hupdated
      rw [hr]
      exact ⟨storable_of_not_error (obeys_set ha position hjoined) rfl, hresult⟩

/-! ## Members -/

/-- What a member gives obeys, and so does the target as it was changed. -/
def ObeysResult (d : Discipline) (r : MemberResult) : Prop :=
  d.Obeys r.result ∧ ∀ v, r.updated = some v → d.Obeys v

theorem obeysResult_plain (h : d.Obeys v) : d.ObeysResult (.plain v) := ⟨h, nofun⟩

theorem obeysResult_changed (h : d.Obeys v) : d.ObeysResult (.changed v) := by
  refine ⟨h, ?_⟩
  rintro w ⟨⟩
  exact h

theorem obeys_removed {index : Value} {items : Items} (h : d.Obeys (.array es ks))
    (hr : removed ⟨es, ks⟩ index = .ok items) : d.Obeys items.toValue := by
  unfold removed at hr
  split at hr
  · cases hr
  · split at hr
    case h_1 hremove =>
      cases hr
      obtain ⟨p, -, hp⟩ := Option.bind_eq_some_iff.1 hremove
      obtain ⟨w, -, hw⟩ := Option.map_eq_some_iff.1 hp
      cases hw
      exact obeys_ofList fun e he => storable_elements h e (List.mem_of_mem_eraseIdx he)
    case h_2 => cases hr

theorem obeys_keyValues (h : d.Obeys (.array es ks)) :
    d.Obeys (Value.ofList (Items.mk es ks).keyValues) := by
  refine obeys_ofList fun key hkey => ?_
  obtain ⟨e, he, hsplit⟩ := List.mem_filterMap.1 hkey
  exact (storable_splitPair (storable_elements h e he)).1 key hsplit

theorem obeys_unwrapped (h : d.Obeys (.array es ks)) :
    d.Obeys (Value.ofList (es.map unwrapPair)) := by
  refine obeys_ofList fun v hv => ?_
  obtain ⟨e, he, rfl⟩ := List.mem_map.1 hv
  exact storable_unwrapPair (storable_elements h e he)

theorem obeys_arrayMember {name : String} {args : List Value} {r : MemberResult}
    (h : d.Obeys (.array es ks)) (hargs : ∀ arg ∈ args, d.Storable arg)
    (hr : arrayMember ⟨es, ks⟩ name args = .ok r) : d.ObeysResult r := by
  unfold arrayMember at hr
  split at hr
  case h_1 =>
    cases withArgs_eq_ok hr
    exact obeysResult_plain (obeys_of_plain rfl)
  case h_2 =>
    cases withArgs_eq_ok hr
    exact obeysResult_plain (obeys_keyValues h)
  case h_3 =>
    cases withArgs_eq_ok hr
    exact obeysResult_plain (obeys_unwrapped h)
  case h_4 =>
    replace hr := withArgs_eq_ok hr
    split at hr
    case h_1 v hv =>
      cases hr
      exact obeysResult_plain (storable_elements h v (List.mem_of_head? hv)).1
    case h_2 => cases hr
  case h_5 =>
    replace hr := withArgs_eq_ok hr
    split at hr
    case h_1 v hv =>
      cases hr
      exact obeysResult_plain (storable_elements h v (List.mem_of_getLast? hv)).1
    case h_2 => cases hr
  case h_6 =>
    obtain ⟨n, -, rfl⟩ := map_eq_ok_iff.1 (withArgs_eq_ok hr)
    exact obeysResult_plain (obeys_of_plain rfl)
  case h_7 =>
    obtain ⟨needle, -, hresult⟩ := withArg_eq_ok hr
    cases hresult
    exact obeysResult_plain (obeys_of_plain rfl)
  case h_8 =>
    obtain ⟨v, rfl, hresult⟩ := withArg_eq_ok hr
    cases hresult
    exact obeysResult_changed (obeys_push h (hargs v List.mem_cons_self))
  case h_9 =>
    obtain ⟨v, rfl, hresult⟩ := withArg_eq_ok hr
    split at hresult
    case h_1 =>
      cases hresult
      exact obeysResult_changed (obeys_append h (hargs _ List.mem_cons_self).1)
    case h_2 => cases hresult
  case h_10 =>
    obtain ⟨index, rfl, hresult⟩ := withArg_eq_ok hr
    obtain ⟨items, hitems, rfl⟩ := map_eq_ok_iff.1 hresult
    exact obeysResult_changed (obeys_removed h hitems)
  case h_11 => cases hr

theorem obeys_statMember {s : Stat} {name : String} {args : List Value} {r : MemberResult}
    (h : d.Obeys (.stat s)) (hr : statMember s name args = .ok r) : d.ObeysResult r := by
  unfold statMember at hr
  split at hr
  case h_1 =>
    cases withArgs_eq_ok hr
    exact obeysResult_plain (obeys_of_plain rfl)
  case h_2 =>
    replace hr := withArgs_eq_ok hr
    split at hr <;> cases hr
    exact obeysResult_plain (obeys_of_plain rfl)
  case h_3 =>
    replace hr := withArgs_eq_ok hr
    split at hr <;> cases hr
    exact obeysResult_plain (obeys_of_plain rfl)
  case h_4 =>
    cases withArgs_eq_ok hr
    refine obeysResult_plain (obeys_ofList fun e he => ?_)
    obtain ⟨b, -, rfl⟩ := List.mem_map.1 he
    exact storable_of_plain rfl rfl
  case h_5 =>
    obtain ⟨v, -, hresult⟩ := withArg_eq_ok hr
    split at hresult <;> cases hresult
    · exact obeysResult_changed (obeys_add h _)
    · exact obeysResult_changed (obeys_remove h _)
  case h_6 =>
    obtain ⟨v, -, hresult⟩ := withArg_eq_ok hr
    split at hresult <;> cases hresult
    · exact obeysResult_changed (obeys_remove h _)
    · exact obeysResult_changed (obeys_add h _)
  case h_7 => cases hr

theorem obeys_bonusProperty? {b : Bonus} {name : String} (hr : bonusProperty? b name = some w) :
    d.Obeys w := by
  unfold bonusProperty? at hr
  split at hr <;> cases hr <;> exact obeys_of_plain rfl

theorem obeys_property? {name : String} (h : d.Obeys v) (hr : v.property? name = some w) :
    d.Obeys w := by
  unfold property? at hr
  split at hr
  case h_1 =>
    cases hr
    exact (storable_of_pair h).1.1
  case h_2 =>
    cases hr
    exact (storable_of_pair h).2.1
  case h_3 | h_4 | h_6 | h_7 | h_8 =>
    cases hr
    exact obeys_of_plain rfl
  case h_5 =>
    split at hr <;> cases hr <;> exact obeys_of_plain rfl
  case h_9 =>
    cases hr
    refine obeys_ofList fun e he => ?_
    obtain ⟨param, -, rfl⟩ := List.mem_map.1 he
    exact storable_of_plain rfl rfl
  case h_10 | h_11 => exact obeys_bonusProperty? hr
  case h_12 => cases hr

theorem obeys_member {name : String} {args : List Value} {r : MemberResult} (h : d.Obeys v)
    (hargs : ∀ arg ∈ args, d.Storable arg) (hr : v.member name args = .ok r) :
    d.ObeysResult r := by
  unfold member at hr
  split at hr
  case h_1 => exact obeys_arrayMember h hargs hr
  case h_2 => exact obeys_statMember h hr
  case h_3 =>
    split at hr
    case h_1 result hresult =>
      cases withArgs_eq_ok hr
      exact obeysResult_plain (obeys_property? h hresult)
    case h_2 => cases hr

end Discipline

/-! ## The aliases of all arrays

Every array that an operation makes is built from its elements or has one element pushed, so that
arrays have the aliases that their elements ought to have is a discipline. -/

/-- Every array that occurs in a value is faithful. -/
def Value.Faithful (v : Value) : Prop :=
  ∀ es ks, (Value.array es ks).Occurs v → (Items.mk es ks).Faithful

namespace Discipline

/-- The discipline that arrays are faithful. Any value may be a part of others. -/
def faithful : Discipline where
  node
    | .array es ks => (Items.mk es ks).Faithful
    | _ => True
  part _ := True
  plain {v} h := by cases v <;> trivial
  part_of_not_error _ := trivial
  part_of_element _ _ := trivial
  part_of_pair _ := ⟨trivial, trivial⟩
  node_pair _ _ := trivial
  node_ofList _ := Items.faithful_ofList _
  node_push h _ := Items.faithful_push h _
  node_add _ := trivial
  node_remove _ := trivial
  node_setBase _ := trivial

theorem obeys_faithful_iff {v : Value} : faithful.Obeys v ↔ v.Faithful := by
  constructor
  · exact fun h es ks hoccurs => h _ hoccurs
  · intro h w hoccurs
    cases w with
    | array es ks => exact h es ks hoccurs
    | _ => trivial

end Discipline

namespace Value

theorem Faithful.of_plain {v : Value} (h : v.isPlain = true) : v.Faithful :=
  Discipline.obeys_faithful_iff.1 (Discipline.obeys_of_plain h)

theorem Faithful.pair {key v : Value} (hkey : key.Faithful) (hv : v.Faithful) :
    (Value.pair key v).Faithful :=
  Discipline.obeys_faithful_iff.1 (Discipline.obeys_pair.2
    ⟨trivial, Discipline.obeys_faithful_iff.2 hkey, Discipline.obeys_faithful_iff.2 hv⟩)

theorem Faithful.ofList {es : List Value} (h : ∀ e ∈ es, e.Faithful) :
    (Value.ofList es).Faithful :=
  Discipline.obeys_faithful_iff.1 (Discipline.obeys_ofList
    fun e he => ⟨Discipline.obeys_faithful_iff.2 (h e he), trivial⟩)

theorem Faithful.items {a : Items} (h : a.toValue.Faithful) : a.Faithful := h _ _ .here

theorem Faithful.element {a : Items} (h : a.toValue.Faithful) {v : Value}
    (hv : v ∈ a.elements) : v.unwrapPair.Faithful := by
  have hobeys := Discipline.obeys_faithful_iff.2 h
  have hstorable := Discipline.storable_elements hobeys v hv
  exact Discipline.obeys_faithful_iff.1 (Discipline.storable_unwrapPair hstorable).1

end Value

end DiceScript
