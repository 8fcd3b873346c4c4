import DiceScript.Script
import Mathlib

/-!
What comes of readers: the tree and the progress after it, from a setting and the progress before.
-/

namespace DiceScript

variable {α β : Type}

/-- The number of tokens ahead. -/
def Progress.remaining (p : Progress) : Nat := p.cursor.rest.length

/-- The progress behind the next token. -/
def Progress.advanced (p : Progress) : Progress := { p with cursor := p.cursor.advance }

/-- The progress with one more mistake. -/
def Progress.noting (p : Progress) (message : String) : Progress :=
  { p with mistakes := p.mistakes ++ [message] }

namespace Reader

/-- What comes of a reader, if anything does. -/
def outcome (x : Reader α) (s : Setting) (p : Progress) : Option (α × Progress) := x s p

variable (s : Setting) (p : Progress)

@[simp]
theorem outcome_pure (a : α) : outcome (pure a) s p = some (a, p) := rfl

@[simp]
theorem outcome_bind (x : Reader α) (f : α → Reader β) :
    outcome (x >>= f) s p = (outcome x s p).bind fun r => outcome (f r.1) s r.2 := rfl

@[simp]
theorem outcome_map (f : α → β) (x : Reader α) :
    outcome (f <$> x) s p = (outcome x s p).bind fun r => some (f r.1, r.2) := rfl

@[simp]
theorem outcome_here : outcome here s p = some (p.cursor, p) := rfl

@[simp]
theorem outcome_peek : outcome peek s p = some (p.cursor.kind, p) := rfl

@[simp]
theorem outcome_moveTo (c : Cursor) :
    outcome (moveTo c) s p = some ((), { p with cursor := c }) := rfl

@[simp]
theorem outcome_advance : outcome advance s p = some ((), p.advanced) := rfl

@[simp]
theorem outcome_remaining : outcome remaining s p = some (p.remaining, p) := rfl

@[simp]
theorem outcome_setting : outcome (readThe Setting) s p = some (s, p) := rfl

@[simp]
theorem outcome_exhausted : outcome (exhausted : Reader α) s p = none := rfl

@[simp]
theorem outcome_mistakeAt (c : Cursor) (m : Mistake) :
    outcome (mistakeAt c m) s p =
      some (.error (m.message c.window), p.noting (m.message c.window)) := rfl

@[simp]
theorem outcome_mistake (m : Mistake) :
    outcome (mistake m) s p =
      some (.error (m.message p.cursor.window), p.noting (m.message p.cursor.window)) := rfl

@[simp]
theorem outcome_withPairs (x : Reader Expr) :
    outcome (withPairs x) s p = outcome x { s with pairs := true } p := rfl

@[simp]
theorem outcome_withoutPairs (x : Reader Expr) :
    outcome (withoutPairs x) s p = outcome x { s with pairs := false } p := rfl

theorem outcome_consumeIf (kind : TokenKind) :
    outcome (consumeIf kind) s p =
      if p.cursor.kind = kind then some (true, p.advanced) else some (false, p) := by
  simp only [consumeIf, outcome_bind, outcome_peek, Option.bind_some]
  by_cases h : p.cursor.kind = kind <;> simp [h]

theorem outcome_settle (x : Attempt Expr) :
    outcome (settle x) s p =
      (outcome x.run s p).bind fun
        | (.ok e, q) => some (e, q)
        | (.error node, q) => some (node, q) := by
  simp only [settle, outcome_bind]
  rcases outcome x.run s p with _ | ⟨_ | _, q⟩ <;> rfl

end Reader

namespace Attempt

open Reader

variable (s : Setting) (p : Progress)

@[simp]
theorem outcome_pure (a : α) : outcome (pure a : Attempt α).run s p = some (.ok a, p) := rfl

theorem outcome_bind (x : Attempt α) (f : α → Attempt β) :
    outcome (x >>= f).run s p =
      (outcome x.run s p).bind fun
        | (.ok a, q) => outcome (f a).run s q
        | (.error node, q) => some (.error node, q) := by
  show outcome (ExceptT.run x >>= fun r => ExceptT.bindCont f r) s p = _
  simp only [Reader.outcome_bind]
  rcases outcome x.run s p with _ | ⟨_ | _, q⟩ <;> rfl

theorem bind_ok {x : Attempt α} {f : α → Attempt β} {s : Setting} {p q : Progress} {b : β}
    (h : outcome (x >>= f).run s p = some (.ok b, q)) :
    ∃ a t, outcome x.run s p = some (.ok a, t) ∧ outcome (f a).run s t = some (.ok b, q) := by
  rw [outcome_bind] at h
  rcases hx : outcome x.run s p with _ | ⟨node | a, t⟩
  · simp [hx] at h
  · simp [hx] at h
  · exact ⟨a, t, rfl, by simpa [hx] using h⟩

@[simp]
theorem outcome_lift (x : Reader α) :
    outcome (liftM x : Attempt α).run s p =
      (outcome x s p).bind fun r => some (.ok r.1, r.2) := rfl

theorem outcome_here_bind (f : Cursor → Attempt β) :
    outcome (liftM here >>= f).run s p = outcome (f p.cursor).run s p := rfl

theorem outcome_peek_bind (f : TokenKind → Attempt β) :
    outcome (liftM peek >>= f).run s p = outcome (f p.cursor.kind).run s p := rfl

@[simp]
theorem outcome_failAt (c : Cursor) (m : Mistake) :
    outcome (failAt c m : Attempt α).run s p =
      some (.error (.error (m.message c.window)), p.noting (m.message c.window)) := rfl

@[simp]
theorem outcome_fail (m : Mistake) :
    outcome (fail m : Attempt α).run s p =
      some (.error (.error (m.message p.cursor.window)),
        p.noting (m.message p.cursor.window)) := rfl

theorem outcome_expect (kind : TokenKind) (place : Place) :
    outcome (expect kind place).run s p =
      if p.cursor.kind = kind then some (.ok (), p.advanced)
      else outcome (fail (.expected kind place) : Attempt Unit).run s p := by
  have hlift : outcome (liftM (consumeIf kind) : Attempt Bool).run s p =
      (outcome (consumeIf kind) s p).bind fun r => some (.ok r.1, r.2) := rfl
  simp only [expect, outcome_bind, hlift, outcome_consumeIf]
  split <;> rfl

end Attempt

/-- Reading tokens is reading statements up to their end. -/
theorem Script.ofTokensWithin?_eq (n : Nat) (cs : List Char) (tokens : List Token) :
    ofTokensWithin? n cs tokens =
      (Reader.outcome (Grammar.readWithin n (.sequence none)) ⟨cs, true⟩
        ⟨.ofTokens tokens, []⟩).map fun result => ⟨result.1, result.2.mistakes⟩ := by
  show (Reader.outcome (Grammar.readWithin n (.sequence none)) ⟨cs, true⟩
    ⟨.ofTokens tokens, []⟩).bind _ = _
  cases Reader.outcome (Grammar.readWithin n (.sequence none)) ⟨cs, true⟩ ⟨.ofTokens tokens, []⟩ <;>
    rfl

end DiceScript
