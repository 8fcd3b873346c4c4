import DiceScript.Proofs.Sorting
import DiceScript.Value.Assign
import DiceScript.Value.Member

/-!
What operations on values pick and put back: indexing picks elements, members look at their
arguments, and an assignment through indices goes into one element of each array on its way.
-/

namespace DiceScript

namespace Value

/-! ## Parts that are picked -/

theorem map_eq_ok_iff {ε α β : Type} {f : α → β} {x : Except ε α} {y : β} :
    x.map f = .ok y ↔ ∃ a, x = .ok a ∧ f a = y := by
  cases x <;> simp [Except.map]

theorem mem_of_part {α : Type} {parts : List α} {i : Integer} {x : α}
    (h : part parts i = .ok x) : x ∈ parts := by
  unfold part at h
  split at h
  case h_1 y hy =>
    cases h
    obtain ⟨p, -, hp⟩ := Option.bind_eq_some_iff.1 hy
    exact List.mem_of_getElem? hp
  case h_2 => cases h

theorem mapM_part {α : Type} (parts : List α) (is : List Integer) (xs : List α)
    (h : is.mapM (part parts) = .ok xs) : ∀ x ∈ xs, x ∈ parts := by
  induction is generalizing xs with
  | nil =>
    cases h
    exact nofun
  | cons i is ih =>
    rw [List.mapM_cons] at h
    cases hi : part parts i with
    | error f =>
      rw [hi] at h
      cases h
    | ok x =>
      cases his : is.mapM (part parts) with
      | error f =>
        rw [hi, his] at h
        cases h
      | ok ys =>
        rw [hi, his] at h
        cases h
        intro y hy
        rcases List.mem_cons.1 hy with rfl | hy
        · exact mem_of_part hi
        · exact ih ys his y hy

theorem mem_of_slice {α : Type} {parts : List α} {r : Range} {xs : List α}
    (h : slice parts r = .ok xs) : ∀ x ∈ xs, x ∈ parts := mapM_part parts _ xs h

/-! ## Arguments of members -/

theorem withArgs_eq_ok {α : Type} {name : String} {args : List Value} {expected : Nat}
    {result : Except Fault α} {r : α} (h : withArgs name args expected result = .ok r) :
    result = .ok r := by
  unfold withArgs at h
  split at h
  · exact h
  · cases h

theorem withArg_eq_ok {α : Type} {name : String} {args : List Value}
    {result : Value → Except Fault α} {r : α} (h : withArg name args result = .ok r) :
    ∃ arg, args = [arg] ∧ result arg = .ok r := by
  unfold withArg at h
  split at h
  case h_1 arg => exact ⟨arg, rfl, h⟩
  case h_2 => cases h

/-! ## Assignments through indices -/

theorem assignPath_nil {a v : Value} {op : AssignOp} {r : Value × Value}
    (h : assignPath a op v [] = .ok r) :
    (assigned op a v).isError = false ∧ r = (assigned op a v, assigned op a v) := by
  unfold assignPath at h
  split at h
  case h_1 => cases h
  case h_2 hne =>
    cases h
    refine ⟨?_, rfl⟩
    cases hw : assigned op a v <;> first | rfl | exact absurd hw (hne _)

/-- What an assignment leads into at an element: the key that stays, and the value that the rest of
the indices is about. A pair that takes the place of the whole element keeps no key. -/
def entrance (whole : Bool) (element : Value) : Option Value × Value :=
  if whole then (none, element) else element.splitPair

/-- An assignment through an index puts a new key at the end of an array, or it goes on into an
element and puts what comes of it back in its place. -/
theorem assignPath_cons {a v index : Value} {op : AssignOp} {rest : List Value}
    {r : Value × Value} (h : assignPath a op v (index :: rest) = .ok r) :
    ∃ es ks, a = .array es ks ∧
      ((∃ key, slot ⟨es, ks⟩ index = .ok (.missing key) ∧ rest = [] ∧ op = .set ∧
          r = (((Items.mk es ks).push (.pair (.str key) v)).toValue, v)) ∨
        ∃ position element whole updated, slot ⟨es, ks⟩ index = .ok (.element position) ∧
          es[position]? = some element ∧ whole = (rest.isEmpty && op == .set && v.isPair) ∧
          assignPath (entrance whole element).2 op v rest = .ok (updated, r.2) ∧
          r.1 = ((Items.mk es ks).set position
            (joinPair (entrance whole element).1 updated)).toValue) := by
  cases a with
  | array es ks =>
    refine ⟨es, ks, rfl, ?_⟩
    simp only [assignPath] at h
    cases hslot : slot ⟨es, ks⟩ index with
    | error f =>
      rw [hslot] at h
      cases h
    | ok place =>
      rw [hslot] at h
      cases place with
      -- a key that no element has can only be set, and only as the last index
      | missing key =>
        dsimp only at h
        split at h
        case isTrue hset =>
          rw [Bool.and_eq_true, List.isEmpty_iff, beq_iff_eq] at hset
          cases h
          exact .inl ⟨key, rfl, hset.1, hset.2, rfl⟩
        case isFalse => cases h
      | element position =>
        dsimp only at h
        cases helement : es[position]? with
        | none =>
          rw [helement] at h
          cases h
        | some element =>
          rw [helement] at h
          dsimp only at h
          split at h
          case h_1 => cases h
          -- the updated value goes back behind the key that was split off
          case h_2 updated result hpath =>
            cases h
            exact .inr ⟨position, element, _, updated, rfl, helement, rfl, hpath, rfl⟩
  | _ => cases h

end Value

end DiceScript
