import DiceScript.Proofs.Grammar.Outcome

/-!
Reading goes forward and comes to an end. Every rule of the grammar leaves the cursor where it was
or further on, and starts over only behind a token that it has read. So what a rule does follows
from how the grammar reads the tokens behind the next one, and neither the bound of a repetition nor
that of the nesting is ever used up.
-/

namespace DiceScript

variable {α β : Type}

/-! ## Cursors -/

namespace Cursor

/-- The second cursor stands where the first does, or further on in the same tokens. -/
def Ahead (c d : Cursor) : Prop :=
  ∃ passed, c.rest = passed ++ d.rest ∧ d.before = passed.reverse ++ c.before

theorem Ahead.refl (c : Cursor) : c.Ahead c := ⟨[], rfl, rfl⟩

theorem Ahead.trans {c d e : Cursor} (hcd : c.Ahead d) (hde : d.Ahead e) : c.Ahead e := by
  obtain ⟨xs, hrest, hbefore⟩ := hcd
  obtain ⟨ys, hrest', hbefore'⟩ := hde
  refine ⟨xs ++ ys, ?_, ?_⟩
  · rw [hrest, hrest', List.append_assoc]
  · rw [hbefore', hbefore, List.reverse_append, List.append_assoc]

theorem Ahead.length_le {c d : Cursor} (h : c.Ahead d) : d.rest.length ≤ c.rest.length := by
  obtain ⟨xs, hrest, -⟩ := h
  rw [hrest, List.length_append]
  omega

theorem ahead_advance (c : Cursor) : c.Ahead c.advance := by
  unfold advance
  split
  · exact .refl c
  · rename_i token rest hrest
    exact ⟨[token], hrest, rfl⟩

theorem ahead_skip (c : Cursor) (n : Nat) : c.Ahead (c.skip n) := by
  induction n generalizing c with
  | zero => exact .refl c
  | succ n ih => exact (ahead_advance c).trans (ih c.advance)

theorem kind_eq (c : Cursor) : c.kind = (c.rest.head?.map Token.kind).getD .finish := by
  unfold kind kindAt
  cases c.rest <;> rfl

theorem rest_ne_nil_of_kind {c : Cursor} {kind : TokenKind} (h : c.kind = kind)
    (hkind : kind ≠ .finish) : c.rest ≠ [] := by
  intro hnil
  rw [kind_eq, hnil] at h
  exact hkind h.symm

theorem advance_length_lt {c : Cursor} (h : c.rest ≠ []) :
    c.advance.rest.length < c.rest.length := by
  unfold advance
  split
  · rename_i hnil
    exact absurd hnil h
  · rename_i token rest hrest
    rw [hrest]
    exact Nat.lt_succ_self _

end Cursor

theorem remaining_advanced_lt {p : Progress} (h : p.cursor.rest ≠ []) :
    p.advanced.remaining < p.remaining := Cursor.advance_length_lt h

/-- Behind a token that is no mark of the end, fewer tokens are ahead. -/
theorem remaining_advanced_lt_of_kind {p : Progress} {kind : TokenKind} (h : p.cursor.kind = kind)
    (hkind : kind ≠ .finish) : p.advanced.remaining < p.remaining :=
  remaining_advanced_lt (Cursor.rest_ne_nil_of_kind h hkind)

/-- Behind a token that a table finds, fewer tokens are ahead. -/
theorem remaining_advanced_lt_of_found {p : Progress} (table : TokenKind → Option α) {x : α}
    (hfinish : table .finish = none) (h : table p.cursor.kind = some x) :
    p.advanced.remaining < p.remaining := by
  refine remaining_advanced_lt_of_kind rfl ?_
  intro hkind
  rw [hkind, hfinish] at h
  cases h

/-! ## Readers that agree -/

open Reader

/-- From some progress, two readers come to the same, and it is no step back. -/
def AgreeAt (x y : Reader α) (s : Setting) (p : Progress) : Prop :=
  ∃ a q, outcome x s p = some (a, q) ∧ outcome y s p = some (a, q) ∧ p.cursor.Ahead q.cursor

/-- Two readers agree wherever fewer than `r` tokens are ahead. -/
def Alike (r : Nat) (x y : Reader α) : Prop :=
  ∀ s p, p.remaining < r → AgreeAt x y s p

theorem Alike.mono {r k : Nat} {x y : Reader α} (h : Alike r x y) (hk : k ≤ r) : Alike k x y :=
  fun s p hp => h s p (Nat.lt_of_lt_of_le hp hk)

namespace AgreeAt

variable {x y : Reader α} {f g : α → Reader β} {s : Setting} {p : Progress}

theorem remaining_le {a : α} {q : Progress} (h : AgreeAt x y s p)
    (hq : outcome x s p = some (a, q)) : q.remaining ≤ p.remaining := by
  obtain ⟨b, t, hx, -, hahead⟩ := h
  rw [hx] at hq
  cases hq
  exact hahead.length_le

theorem left (h : AgreeAt x y s p) : AgreeAt x x s p := by
  obtain ⟨a, q, hx, -, hahead⟩ := h
  exact ⟨a, q, hx, hx, hahead⟩

theorem bind (hx : AgreeAt x y s p)
    (hf : ∀ a q, outcome x s p = some (a, q) → q.remaining ≤ p.remaining →
      AgreeAt (f a) (g a) s q) : AgreeAt (x >>= f) (y >>= g) s p := by
  obtain ⟨a, q, hxq, hyq, hahead⟩ := hx
  obtain ⟨b, t, hft, hgt, hahead'⟩ := hf a q hxq hahead.length_le
  refine ⟨b, t, ?_, ?_, hahead.trans hahead'⟩
  · rw [outcome_bind, hxq]
    exact hft
  · rw [outcome_bind, hyq]
    exact hgt

theorem pure (a : α) : AgreeAt (Pure.pure a) (Pure.pure a) s p := ⟨a, p, rfl, rfl, .refl _⟩

theorem here_bind {f g : Cursor → Reader β} (h : AgreeAt (f p.cursor) (g p.cursor) s p) :
    AgreeAt (here >>= f) (here >>= g) s p := h

theorem peek_bind {f g : TokenKind → Reader β}
    (h : AgreeAt (f p.cursor.kind) (g p.cursor.kind) s p) :
    AgreeAt (peek >>= f) (peek >>= g) s p := h

theorem remaining_bind {f g : Nat → Reader β} (h : AgreeAt (f p.remaining) (g p.remaining) s p) :
    AgreeAt (remaining >>= f) (remaining >>= g) s p := h

theorem moveTo {c : Cursor} (h : p.cursor.Ahead c) :
    AgreeAt (Reader.moveTo c) (Reader.moveTo c) s p := ⟨_, _, rfl, rfl, h⟩

theorem advance : AgreeAt Reader.advance Reader.advance s p :=
  ⟨_, _, rfl, rfl, Cursor.ahead_advance _⟩

theorem advance_pure (a : α) :
    AgreeAt (Reader.advance >>= fun _ => Pure.pure a)
      (Reader.advance >>= fun _ => Pure.pure a) s p :=
  .bind .advance fun _ _ _ _ => .pure a

theorem advance_bind {f g : Unit → Reader β} (h : AgreeAt (f ()) (g ()) s p.advanced) :
    AgreeAt (Reader.advance >>= f) (Reader.advance >>= g) s p :=
  .bind .advance fun _ q hq _ => by
    cases hq
    exact h

theorem mistakeAt (c : Cursor) (m : Mistake) :
    AgreeAt (Reader.mistakeAt c m) (Reader.mistakeAt c m) s p := ⟨_, _, rfl, rfl, .refl _⟩

theorem mistake (m : Mistake) : AgreeAt (Reader.mistake m) (Reader.mistake m) s p :=
  ⟨_, _, rfl, rfl, .refl _⟩

theorem withPairs {x y : Reader Expr} (h : AgreeAt x y { s with pairs := true } p) :
    AgreeAt (Reader.withPairs x) (Reader.withPairs y) s p := h

theorem withoutPairs {x y : Reader Expr} (h : AgreeAt x y { s with pairs := false } p) :
    AgreeAt (Reader.withoutPairs x) (Reader.withoutPairs y) s p := h

theorem consumeIf (kind : TokenKind) :
    AgreeAt (Reader.consumeIf kind) (Reader.consumeIf kind) s p := by
  unfold AgreeAt
  rw [outcome_consumeIf]
  split
  · exact ⟨_, _, rfl, rfl, Cursor.ahead_advance _⟩
  · exact ⟨_, _, rfl, rfl, .refl _⟩

end AgreeAt

theorem consumeIf_true {kind : TokenKind} {s : Setting} {p q : Progress}
    (h : outcome (consumeIf kind) s p = some (true, q)) (hkind : kind ≠ .finish) :
    q.remaining < p.remaining := by
  rw [outcome_consumeIf] at h
  split at h
  · rename_i heq
    cases h
    exact remaining_advanced_lt_of_kind heq hkind
  · cases h

/-! ## Attempts that agree -/

namespace AgreeAt

variable {x y : Attempt α} {f g : α → Attempt β} {s : Setting} {p : Progress}

theorem attempt_pure (a : α) :
    AgreeAt (Pure.pure a : Attempt α).run (Pure.pure a : Attempt α).run s p :=
  ⟨_, _, rfl, rfl, .refl _⟩

theorem attempt_bind (hx : AgreeAt x.run y.run s p)
    (hf : ∀ a q, outcome x.run s p = some (.ok a, q) → q.remaining ≤ p.remaining →
      AgreeAt (f a).run (g a).run s q) : AgreeAt (x >>= f).run (y >>= g).run s p := by
  show AgreeAt (x.run >>= fun r => ExceptT.bindCont f r)
    (y.run >>= fun r => ExceptT.bindCont g r) s p
  refine .bind hx fun r q hq hle => ?_
  rcases r with node | a
  · exact .pure (Except.error node)
  · exact hf a q hq hle

theorem lift_bind {x y : Reader α} (hx : AgreeAt x y s p)
    (hf : ∀ a q, outcome x s p = some (a, q) → q.remaining ≤ p.remaining →
      AgreeAt (f a).run (g a).run s q) :
    AgreeAt (liftM x >>= f).run (liftM y >>= g).run s p := by
  obtain ⟨a, q, hxq, hyq, hahead⟩ := hx
  have hlift : AgreeAt (liftM x : Attempt α).run (liftM y : Attempt α).run s p := by
    refine ⟨.ok a, q, ?_, ?_, hahead⟩
    · rw [Attempt.outcome_lift, hxq]
      rfl
    · rw [Attempt.outcome_lift, hyq]
      rfl
  refine .attempt_bind hlift fun b t hb hle => ?_
  rw [Attempt.outcome_lift, hxq] at hb
  cases hb
  exact hf a q hxq hle

theorem lift_here_bind {f g : Cursor → Attempt β}
    (h : AgreeAt (f p.cursor).run (g p.cursor).run s p) :
    AgreeAt (liftM here >>= f).run (liftM here >>= g).run s p := h

theorem lift_peek_bind {f g : TokenKind → Attempt β}
    (h : AgreeAt (f p.cursor.kind).run (g p.cursor.kind).run s p) :
    AgreeAt (liftM peek >>= f).run (liftM peek >>= g).run s p := h

theorem lift_remaining_bind {f g : Nat → Attempt β}
    (h : AgreeAt (f p.remaining).run (g p.remaining).run s p) :
    AgreeAt (liftM remaining >>= f).run (liftM remaining >>= g).run s p := h

theorem lift_advance_bind {f g : Unit → Attempt β}
    (h : AgreeAt (f ()).run (g ()).run s p.advanced) :
    AgreeAt (liftM Reader.advance >>= f).run (liftM Reader.advance >>= g).run s p :=
  .lift_bind .advance fun _ q hq _ => by
    cases hq
    exact h

theorem fail (m : Mistake) :
    AgreeAt (Attempt.fail m : Attempt α).run (Attempt.fail m : Attempt α).run s p :=
  ⟨_, _, rfl, rfl, .refl _⟩

theorem failAt (c : Cursor) (m : Mistake) :
    AgreeAt (Attempt.failAt c m : Attempt α).run (Attempt.failAt c m : Attempt α).run s p :=
  ⟨_, _, rfl, rfl, .refl _⟩

theorem expect (kind : TokenKind) (place : Place) :
    AgreeAt (Attempt.expect kind place).run (Attempt.expect kind place).run s p := by
  unfold AgreeAt
  rw [Attempt.outcome_expect]
  split
  · exact ⟨_, _, rfl, rfl, Cursor.ahead_advance _⟩
  · exact ⟨_, _, rfl, rfl, .refl _⟩

theorem settle {x y : Attempt Expr} (h : AgreeAt x.run y.run s p) :
    AgreeAt (Reader.settle x) (Reader.settle y) s p :=
  .bind h fun r _ _ _ => by cases r <;> exact .pure _

end AgreeAt

theorem expect_bind_ok {kind : TokenKind} {place : Place} {f : Unit → Attempt β} {s : Setting}
    {p q : Progress} {b : β}
    (h : outcome (Attempt.expect kind place >>= f).run s p = some (.ok b, q)) :
    p.cursor.kind = kind ∧ outcome (f ()).run s p.advanced = some (.ok b, q) := by
  rw [Attempt.outcome_bind, Attempt.outcome_expect] at h
  split at h
  · rename_i heq
    exact ⟨heq, h⟩
  · cases h

theorem expect_ok {kind : TokenKind} {place : Place} {s : Setting} {p q : Progress} {u : Unit}
    (h : outcome (Attempt.expect kind place).run s p = some (.ok u, q)) (hkind : kind ≠ .finish) :
    q.remaining < p.remaining := by
  rw [Attempt.outcome_expect] at h
  split at h
  · rename_i heq
    cases h
    exact remaining_advanced_lt_of_kind heq hkind
  · cases h

end DiceScript
