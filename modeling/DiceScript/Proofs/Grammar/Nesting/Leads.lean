import DiceScript.Proofs.Grammar.Inset.Mirror

/-!
Where readers lead: what holds of the cursor after a reader, if something holds of the one before.
-/

namespace DiceScript

open Reader

variable {α β : Type} {c : Cursor} {post left : Cursor → Prop}

/-- From a cursor, a reader comes to where `post` holds. -/
def LeadsTo (x : Reader α) (c : Cursor) (post : Cursor → Prop) : Prop :=
  ∀ s p a q, p.cursor = c → outcome x s p = some (a, q) → post q.cursor

/-- From a cursor, an attempt that is completed comes to where `post` holds, and one that is given
up to where `left` holds. -/
def TriesTo (x : Attempt α) (c : Cursor) (post left : Cursor → Prop) : Prop :=
  ∀ s p r q, p.cursor = c → outcome x.run s p = some (r, q) →
    (r.isOk = true → post q.cursor) ∧ (r.isOk = false → left q.cursor)

namespace LeadsTo

theorem pure (a : α) (h : post c) : LeadsTo (Pure.pure a) c post := by
  intro s p b q hp hx
  cases hx
  exact hp ▸ h

theorem bind {x : Reader α} {f : α → Reader β} {mid : Cursor → Prop} (hx : LeadsTo x c mid)
    (hf : ∀ a d, mid d → LeadsTo (f a) d post) : LeadsTo (x >>= f) c post := by
  intro s p b r hp hxf
  rw [Reader.outcome_bind] at hxf
  obtain ⟨⟨a, q⟩, hxa, hfa⟩ := Option.bind_eq_some_iff.1 hxf
  exact hf a q.cursor (hx s p a q hp hxa) s q b r rfl hfa

theorem here_bind {f : Cursor → Reader α} (h : LeadsTo (f c) c post) :
    LeadsTo (here >>= f) c post := by
  intro s p a q hp hx
  subst hp
  exact h s p a q rfl hx

theorem peek_bind {f : TokenKind → Reader α} (h : LeadsTo (f c.kind) c post) :
    LeadsTo (peek >>= f) c post := by
  intro s p a q hp hx
  subst hp
  exact h s p a q rfl hx

theorem remaining_bind {f : Nat → Reader α} (h : ∀ n, LeadsTo (f n) c post) :
    LeadsTo (remaining >>= f) c post :=
  fun s p a q hp hx => h p.remaining s p a q hp hx

theorem setting_bind {f : Setting → Reader α} (h : ∀ s, LeadsTo (f s) c post) :
    LeadsTo (readThe Setting >>= f) c post :=
  fun s p a q hp hx => h s s p a q hp hx

theorem moveTo {d : Cursor} (h : post d) : LeadsTo (Reader.moveTo d) c post := by
  intro s p a q _ hx
  cases hx
  exact h

theorem advance_bind {f : Unit → Reader α} (h : LeadsTo (f ()) c.advance post) :
    LeadsTo (Reader.advance >>= f) c post := by
  intro s p a q hp hx
  subst hp
  exact h s p.advanced a q rfl hx

theorem mistakeAt (d : Cursor) (m : Mistake) (h : post c) :
    LeadsTo (Reader.mistakeAt d m) c post := by
  intro s p a q hp hx
  cases hx
  exact hp ▸ h

theorem withPairs {x : Reader Expr} (h : LeadsTo x c post) : LeadsTo (Reader.withPairs x) c post :=
  fun _ p a q hp hx => h _ p a q hp hx

theorem withoutPairs {x : Reader Expr} (h : LeadsTo x c post) :
    LeadsTo (Reader.withoutPairs x) c post :=
  fun _ p a q hp hx => h _ p a q hp hx

theorem consumeIf_bind {kind : TokenKind} {f : Bool → Reader α}
    (htrue : c.kind = kind → LeadsTo (f true) c.advance post) (hfalse : LeadsTo (f false) c post) :
    LeadsTo (Reader.consumeIf kind >>= f) c post := by
  intro s p a q hp hx
  subst hp
  rw [Reader.outcome_bind, outcome_consumeIf] at hx
  split at hx
  · rename_i hkind
    exact htrue hkind s p.advanced a q rfl hx
  · exact hfalse s p a q rfl hx

theorem settle {x : Attempt Expr} (h : TriesTo x c post post) :
    LeadsTo (Reader.settle x) c post := by
  intro s p a q hp hx
  rw [outcome_settle] at hx
  obtain ⟨⟨r, t⟩, hr, heq⟩ := Option.bind_eq_some_iff.1 hx
  obtain ⟨hok, herror⟩ := h s p r t hp hr
  cases r with
  | ok e =>
    cases heq
    exact hok rfl
  | error node =>
    cases heq
    exact herror rfl

end LeadsTo

namespace TriesTo

theorem pure (a : α) (h : post c) : TriesTo (Pure.pure a) c post left := by
  intro s p r q hp hx
  cases hx
  exact ⟨fun _ => hp ▸ h, nofun⟩

theorem bind {x : Attempt α} {f : α → Attempt β} {mid : Cursor → Prop} (hx : TriesTo x c mid left)
    (hf : ∀ a d, mid d → TriesTo (f a) d post left) : TriesTo (x >>= f) c post left := by
  intro s p r t hp hxf
  rw [Attempt.outcome_bind] at hxf
  obtain ⟨⟨o, q⟩, hxa, hfa⟩ := Option.bind_eq_some_iff.1 hxf
  obtain ⟨hok, herror⟩ := hx s p o q hp hxa
  cases o with
  | ok a => exact hf a q.cursor (hok rfl) s q r t rfl hfa
  | error node =>
    cases hfa
    exact ⟨nofun, fun _ => herror rfl⟩

theorem lift_bind {x : Reader α} {f : α → Attempt β} {mid : Cursor → Prop} (hx : LeadsTo x c mid)
    (hf : ∀ a d, mid d → TriesTo (f a) d post left) : TriesTo (liftM x >>= f) c post left := by
  unfold TriesTo
  rw [Attempt.run_lift_bind]
  intro s p r t hp hxf
  rw [Reader.outcome_bind] at hxf
  obtain ⟨⟨a, q⟩, hxa, hfa⟩ := Option.bind_eq_some_iff.1 hxf
  exact hf a q.cursor (hx s p a q hp hxa) s q r t rfl hfa

theorem lift_here_bind {f : Cursor → Attempt α} (h : TriesTo (f c) c post left) :
    TriesTo (liftM here >>= f) c post left := by
  intro s p r q hp hx
  subst hp
  exact h s p r q rfl hx

theorem lift_peek_bind {f : TokenKind → Attempt α} (h : TriesTo (f c.kind) c post left) :
    TriesTo (liftM peek >>= f) c post left := by
  intro s p r q hp hx
  subst hp
  exact h s p r q rfl hx

theorem lift_remaining_bind {f : Nat → Attempt α} (h : ∀ n, TriesTo (f n) c post left) :
    TriesTo (liftM remaining >>= f) c post left :=
  fun s p r q hp hx => h p.remaining s p r q hp hx

theorem lift_setting_bind {f : Setting → Attempt α} (h : ∀ s, TriesTo (f s) c post left) :
    TriesTo (liftM (readThe Setting : Reader Setting) >>= f) c post left :=
  fun s p r q hp hx => h s s p r q hp hx

theorem lift_advance_bind {f : Unit → Attempt α} (h : TriesTo (f ()) c.advance post left) :
    TriesTo (liftM Reader.advance >>= f) c post left := by
  intro s p r q hp hx
  subst hp
  exact h s p.advanced r q rfl hx

theorem lift_consumeIf_bind {kind : TokenKind} {f : Bool → Attempt α}
    (htrue : c.kind = kind → TriesTo (f true) c.advance post left)
    (hfalse : TriesTo (f false) c post left) :
    TriesTo (liftM (Reader.consumeIf kind) >>= f) c post left := by
  unfold TriesTo
  rw [Attempt.run_lift_bind]
  intro s p r q hp hx
  subst hp
  rw [Reader.outcome_bind, outcome_consumeIf] at hx
  split at hx
  · rename_i hkind
    exact htrue hkind s p.advanced r q rfl hx
  · exact hfalse s p r q rfl hx

theorem failAt (d : Cursor) (m : Mistake) (h : left c) :
    TriesTo (Attempt.failAt d m : Attempt α) c post left := by
  intro s p r q hp hx
  cases hx
  exact ⟨nofun, fun _ => hp ▸ h⟩

theorem fail (m : Mistake) (h : left c) : TriesTo (Attempt.fail m : Attempt α) c post left := by
  intro s p r q hp hx
  cases hx
  exact ⟨nofun, fun _ => hp ▸ h⟩

theorem expect {kind : TokenKind} (place : Place) (h : c.kind = kind → post c.advance)
    (hleft : left c) : TriesTo (Attempt.expect kind place) c post left :=
  .lift_consumeIf_bind (fun hkind => .pure () (h hkind)) (.fail _ hleft)

end TriesTo

end DiceScript
