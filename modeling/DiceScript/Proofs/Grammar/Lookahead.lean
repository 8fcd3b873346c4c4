import DiceScript.Proofs.Grammar.Bounds

/-!
Where reading looks ahead. An operand that begins with a parenthesis is a function if an arrow
stands behind the closing one, and an `if` in front of a parenthesis is the function of that name
unless a block stands behind the closing one. The tokens in front of a parenthesis tell whether it
is looked past. The body of a function is stepped over as a whole, so nothing in it is.
-/

namespace DiceScript

namespace Cursor

/-- The token in front of the cursor is of a kind. -/
def Behind (c : Cursor) (kind : TokenKind) : Prop := ∃ t ∈ c.before.head?, t.kind = kind

/-! ## Outside the bodies of functions -/

/-- The number of tokens that are stepped over together with the next one: the rest of the body of a
function, if that is what begins here. -/
def bodyAhead (c : Cursor) : Nat :=
  match c.before.head?, groupAt? c.rest with
  | some t, some g =>
    if t.kind = .arrow ∧ g.opening.kind = .openCurly then g.inside.length + 1 else 0
  | _, _ => 0

/-- The cursors in some tokens and behind them that are not inside the body of a function, when as
many tokens as the number says are still stepped over. The tokens in front are nearest first. -/
def outsideFrom (before : List Token) : Nat → List Token → List Cursor
  | _, [] => [⟨before, []⟩]
  | 0, t :: rest =>
    ⟨before, t :: rest⟩ :: outsideFrom (t :: before) (bodyAhead ⟨before, t :: rest⟩) rest
  | n + 1, t :: rest => outsideFrom (t :: before) n rest

/-- The cursors in some tokens that are not inside the body of a function. -/
def outsideBodies (tokens : List Token) : List Cursor := outsideFrom [] 0 tokens

theorem skip_end (before : List Token) (n : Nat) : (Cursor.mk before []).skip n = ⟨before, []⟩ := by
  induction n with
  | zero => rfl
  | succ n ih => exact ih

/-- Behind the tokens that are stepped over stands a cursor. -/
theorem skip_mem_outsideFrom (before : List Token) (n : Nat) (ts : List Token) :
    (Cursor.mk before ts).skip n ∈ outsideFrom before n ts := by
  induction ts generalizing before n with
  | nil =>
    rw [skip_end]
    cases n <;> exact List.mem_cons_self
  | cons t rest ih =>
    cases n with
    | zero => exact List.mem_cons_self
    | succ n => exact ih (t :: before) n

theorem pass_mem_outsideFrom {before ts : List Token} {n : Nat} {c : Cursor}
    (h : c ∈ outsideFrom before n ts) :
    c.advance.skip c.bodyAhead ∈ outsideFrom before n ts := by
  have hend : ∀ {before : List Token} {c : Cursor}, c = ⟨before, []⟩ →
      c.advance.skip c.bodyAhead = ⟨before, []⟩ := by
    rintro before _ rfl
    exact skip_end before _
  induction ts generalizing before n with
  | nil =>
    have hc : c = ⟨before, []⟩ := by cases n <;> exact List.mem_singleton.1 h
    rw [hend hc]
    cases n <;> exact List.mem_cons_self
  | cons t rest ih =>
    cases n with
    | zero =>
      rcases List.mem_cons.1 h with rfl | h
      · exact List.mem_cons_of_mem _ (skip_mem_outsideFrom (t :: before) _ rest)
      · exact List.mem_cons_of_mem _ (ih h)
    | succ n =>
      have hrest : c ∈ outsideFrom (t :: before) n rest := h
      exact ih hrest

theorem within_of_mem_outsideFrom {before ts : List Token} {n : Nat} {c : Cursor}
    (h : c ∈ outsideFrom before n ts) : c.Within (before.reverse ++ ts) := by
  induction ts generalizing before n with
  | nil =>
    have hc : c = ⟨before, []⟩ := by cases n <;> exact List.mem_singleton.1 h
    subst hc
    rfl
  | cons t rest ih =>
    have hrest : ∀ {k : Nat}, c ∈ outsideFrom (t :: before) k rest →
        c.Within (before.reverse ++ t :: rest) := by
      intro k hk
      simpa using ih hk
    cases n with
    | zero =>
      rcases List.mem_cons.1 h with rfl | h
      · rfl
      · exact hrest h
    | succ n => exact hrest (k := n) h

variable {tokens : List Token} {c : Cursor} {kind : TokenKind}

theorem ofTokens_outside (tokens : List Token) : ofTokens tokens ∈ outsideBodies tokens :=
  skip_mem_outsideFrom [] 0 tokens

theorem within_of_outside (h : c ∈ outsideBodies tokens) : c.Within tokens :=
  within_of_mem_outsideFrom h

/-- Only a curly bracket behind an arrow begins the body of a function. -/
theorem bodyAhead_eq_zero (h : c.kind ≠ .openCurly ∨ ¬ c.Behind .arrow) : c.bodyAhead = 0 := by
  unfold bodyAhead
  split
  · rename_i t g hbefore hg
    refine if_neg fun hbody => ?_
    rcases h with hkind | harrow
    · exact hkind ((kind_of_groupAt? hg).trans hbody.2)
    · exact harrow ⟨t, hbefore, hbody.1⟩
  · rfl

theorem advance_outside (h : c ∈ outsideBodies tokens)
    (hbody : c.kind ≠ .openCurly ∨ ¬ c.Behind .arrow) : c.advance ∈ outsideBodies tokens := by
  have hpass := pass_mem_outsideFrom h
  rwa [bodyAhead_eq_zero hbody] at hpass

/-- Tokens without a curly bracket are passed. -/
theorem skip_outside (h : c ∈ outsideBodies tokens) {n : Nat}
    (hn : ∀ t ∈ c.rest.take n, t.kind ≠ .openCurly) : c.skip n ∈ outsideBodies tokens := by
  induction n generalizing c with
  | zero => exact h
  | succ n ih =>
    cases hrest : c.rest with
    | nil =>
      obtain ⟨before, rest⟩ := c
      cases hrest
      rwa [skip_end]
    | cons t rest =>
      rw [hrest, List.take_succ_cons] at hn
      have hkind : c.kind ≠ .openCurly := by
        rw [kind_eq, hrest]
        exact hn t List.mem_cons_self
      refine ih (advance_outside h (.inl hkind)) fun u hu => hn u (List.mem_cons_of_mem t ?_)
      simpa [advance, hrest] using hu

/-- Behind an arrow a group in curly brackets is passed as a whole. -/
theorem body_outside (h : c ∈ outsideBodies tokens) (harrow : c.Behind .arrow) {g : Group}
    (hg : groupAt? c.rest = some g) (hcurly : g.opening.kind = .openCurly) :
    c.skip (g.inside.length + 2) ∈ outsideBodies tokens := by
  obtain ⟨t, hbefore, hkind⟩ := harrow
  have hbody : c.bodyAhead = g.inside.length + 1 := by
    unfold bodyAhead
    rw [Option.mem_def.1 hbefore, hg]
    exact if_pos ⟨hkind, hcurly⟩
  have hpass := pass_mem_outsideFrom h
  rwa [hbody] at hpass

/-! ## What the tokens in front tell -/

/-- The kinds of tokens that operands end with. A quote may also be the one that an operand begins
with. -/
def closesOperand : TokenKind → Bool
  | .identifier | .integer | .string | .stored | .dice | .tilde => true
  | .closeParen | .closeSquare | .closeCurly => true
  | _ => false

/-- Whether an operand ends behind tokens, nearest first. A quote ends one if another one ends in
front of it. -/
def endsOperand : List Token → Bool
  | [] => false
  | t :: before => closesOperand t.kind || (t.kind = .quote && endsOperand before)

/-- The kinds of the tokens behind which an operand may begin, whatever stands in front of them.
Behind a name or a closing bracket a parenthesis holds the arguments of a call. -/
def opensOperand : TokenKind → Bool
  | .identifier | .closeParen | .closeSquare | .closeCurly | .arrow | .ifWord | .dollar => false
  | _ => true

/-- The kinds of the tokens behind which a conditional may begin. -/
def opensConditional : TokenKind → Bool
  | .semicolon | .bar | .comma | .question | .colon | .quote => true
  | .openParen | .openSquare | .openCurly => true
  | kind => (Operators.assignment? kind).isSome

/-- Whether an operand may begin behind tokens, nearest first. An `if` is followed by an operand in
place of arguments if another branch is in front of it, and a dollar sign by an operand in place of
a bonus if an operand is in front of it. -/
def beginsOperand : List Token → Bool
  | [] => true
  | t :: before =>
    opensOperand t.kind || (t.kind = .ifWord && before.head?.any (·.kind = .elseWord)) ||
      (t.kind = .dollar && endsOperand before)

/-- Whether a conditional may begin behind tokens, nearest first. -/
def beginsConditional (before : List Token) : Bool :=
  before.head?.all (opensConditional ·.kind)

/-- Whether reading looks for a token of a kind behind the parenthesis that begins here: for an
arrow if it begins an operand, and for a curly bracket if it stands behind the `if` of a
conditional. -/
def looksPast (c : Cursor) : TokenKind → Bool
  | .arrow => c.kind = .openParen && beginsOperand c.before
  | .openCurly =>
    c.kind = .openParen && c.before.head?.any (·.kind = .ifWord) && beginsConditional c.before.tail
  | _ => false

/-- An operand ends in front of the cursor. -/
def EndsOperand (c : Cursor) : Prop := endsOperand c.before = true

/-- A conditional may begin at the cursor. -/
def BeginsConditional (c : Cursor) : Prop := beginsConditional c.before = true

/-- An operand may begin at the cursor. Behind an `if` that is not a call it is the condition. -/
def BeginsOperand (c : Cursor) : Prop :=
  beginsOperand c.before = true ∨
    c.Behind .ifWord ∧ (c.kind = .openParen → groupAt? c.rest ≠ none)

theorem Behind.eq {other : TokenKind} (h : c.Behind kind) (h' : c.Behind other) : kind = other := by
  obtain ⟨t, ht, rfl⟩ := h
  obtain ⟨u, hu, rfl⟩ := h'
  cases ht.symm.trans hu
  rfl

theorem Behind.not_arrow (h : c.Behind kind) (hkind : kind ≠ .arrow) : ¬ c.Behind .arrow :=
  fun harrow => hkind (h.eq harrow)

theorem advance_before (h : c.kind = kind) (hkind : kind ≠ .finish) :
    ∃ t, t.kind = kind ∧ c.advance.before = t :: c.before := by
  obtain ⟨t, rest, hrest⟩ := List.exists_cons_of_ne_nil (rest_ne_nil_of_kind h hkind)
  rw [kind_eq, hrest] at h
  refine ⟨t, h, ?_⟩
  rw [advance, hrest]

theorem behind_advance (h : c.kind = kind) (hkind : kind ≠ .finish) : c.advance.Behind kind := by
  obtain ⟨t, ht, hbefore⟩ := advance_before h hkind
  exact ⟨t, by rw [hbefore]; rfl, ht⟩

theorem before_skip (c : Cursor) (n : Nat) :
    (c.skip n).before = (c.rest.take n).reverse ++ c.before := by
  induction n generalizing c with
  | zero => rfl
  | succ n ih =>
    rw [skip, ih, advance]
    cases hrest : c.rest with
    | nil => simp [hrest]
    | cons t rest => simp

theorem behind_skip (xs : List Token) {ys : List Token} {t : Token} (h : c.rest = xs ++ t :: ys) :
    (c.skip (xs.length + 1)).Behind t.kind := by
  refine ⟨t, ?_, rfl⟩
  rw [before_skip, h, List.take_length_add_append]
  simp

/-- The arrow behind the parentheses of a function is passed together with them. -/
theorem behind_head {g : Group} (hg : groupAt? c.rest = some g)
    (harrow : g.followedBy .arrow = true) :
    (c.skip (g.inside.length + 3)).Behind .arrow ∧ g.inside.length + 3 ≤ c.rest.length ∧
      (c ∈ outsideBodies tokens → c.kind = .openParen → (∀ t ∈ g.inside, t.kind ≠ .openCurly) →
        c.skip (g.inside.length + 3) ∈ outsideBodies tokens) := by
  obtain ⟨arrow, after, hafter, hkind⟩ := Group.followedBy_iff.1 harrow
  have hrest : c.rest = (g.opening :: (g.inside ++ [g.closing])) ++ arrow :: after := by
    rw [groupAt?_parts hg, hafter]
    simp
  have hlength : g.inside.length + 3 = (g.opening :: (g.inside ++ [g.closing])).length + 1 := by
    simp
  refine ⟨?_, ?_, fun hc hparen hinside => skip_outside hc fun t ht => ?_⟩
  · have hbehind := behind_skip _ hrest
    rwa [hkind, ← hlength] at hbehind
  · rw [hrest, hlength, List.length_append]
    exact Nat.add_le_add_left (Nat.succ_pos _) _
  · have hopening : g.opening.kind = .openParen := (kind_of_groupAt? hg).symm.trans hparen
    have hclosing : g.closing.kind = .closeParen := kind_of_closing? hg (by rw [hopening]; rfl)
    rw [hrest, hlength, List.take_length_add_append] at ht
    simp only [List.take_succ_cons, List.take_zero, List.mem_append, List.mem_cons,
      List.not_mem_nil, or_false] at ht
    rcases ht with (rfl | ht | rfl) | rfl
    · rw [hopening]
      decide
    · exact hinside t ht
    · rw [hclosing]
      decide
    · rw [hkind]
      decide

theorem Behind.exists_before (h : c.Behind kind) :
    ∃ t before, t.kind = kind ∧ c.before = t :: before := by
  obtain ⟨t, ht, hkind⟩ := h
  obtain ⟨before, hbefore⟩ := List.head?_eq_some_iff.1 ht
  exact ⟨t, before, hkind, hbefore⟩

theorem Behind.endsOperand (h : c.Behind kind) (hkind : closesOperand kind = true) :
    c.EndsOperand := by
  obtain ⟨t, before, rfl, hbefore⟩ := h.exists_before
  rw [EndsOperand, hbefore, Cursor.endsOperand, hkind]
  rfl

theorem Behind.beginsConditional (h : c.Behind kind) (hkind : opensConditional kind = true) :
    c.BeginsConditional := by
  obtain ⟨t, ht, rfl⟩ := h
  rw [BeginsConditional, Cursor.beginsConditional, Option.mem_def.1 ht]
  exact hkind

theorem Behind.beginsOperand (h : c.Behind kind) (hkind : opensOperand kind = true) :
    c.BeginsOperand := by
  obtain ⟨t, before, rfl, hbefore⟩ := h.exists_before
  left
  rw [hbefore, Cursor.beginsOperand, hkind]
  rfl

theorem opensOperand_of_opensConditional (h : opensConditional kind = true) :
    opensOperand kind = true := by
  cases kind <;> first | rfl | cases h

theorem BeginsConditional.beginsOperand (h : c.BeginsConditional) : c.BeginsOperand := by
  cases hbefore : c.before with
  | nil =>
    left
    rw [hbefore]
    rfl
  | cons t before =>
    rw [BeginsConditional, Cursor.beginsConditional, hbefore] at h
    have hbehind : c.Behind t.kind := ⟨t, by rw [hbefore]; rfl, rfl⟩
    exact hbehind.beginsOperand (opensOperand_of_opensConditional h)

/-- Behind an operand stands no arrow. -/
theorem EndsOperand.not_arrow (h : c.EndsOperand) : ¬ c.Behind .arrow := by
  intro harrow
  obtain ⟨t, before, hkind, hbefore⟩ := harrow.exists_before
  simp [EndsOperand, hbefore, endsOperand, hkind, closesOperand] at h

theorem BeginsOperand.not_arrow (h : c.BeginsOperand) : ¬ c.Behind .arrow := by
  rcases h with h | ⟨hif, -⟩
  · intro harrow
    obtain ⟨t, before, hkind, hbefore⟩ := harrow.exists_before
    simp [hbefore, Cursor.beginsOperand, hkind, opensOperand] at h
  · exact fun harrow => nomatch hif.eq harrow

/-- Behind an operand a quote ends another one, around it. -/
theorem EndsOperand.quote (h : c.EndsOperand) (hkind : c.kind = .quote) :
    c.advance.EndsOperand := by
  obtain ⟨t, hquote, hbefore⟩ := advance_before hkind (by decide)
  rw [EndsOperand] at h ⊢
  simp [hbefore, endsOperand, hquote, h]

/-- Behind an operator an operand begins. A dollar sign is one if an operand is in front of it. -/
theorem EndsOperand.advance (h : c.EndsOperand) (hkind : c.kind = kind) (hfinish : kind ≠ .finish)
    (hoperator : kind = .dollar ∨ opensOperand kind = true) : c.advance.BeginsOperand := by
  rcases hoperator with rfl | hopens
  · obtain ⟨t, hdollar, hbefore⟩ := advance_before hkind hfinish
    left
    rw [EndsOperand] at h
    simp [hbefore, Cursor.beginsOperand, hdollar, h]
  · exact (behind_advance hkind hfinish).beginsOperand hopens

/-- Behind an `else` an `if` is followed by an operand. -/
theorem Behind.else_if (h : c.Behind .elseWord) (hkind : c.kind = .ifWord) :
    c.advance.BeginsOperand := by
  obtain ⟨t, hif, hbefore⟩ := advance_before hkind (by decide)
  obtain ⟨u, hu, helse⟩ := h
  left
  simp [hbefore, Cursor.beginsOperand, hif, Option.mem_def.1 hu, helse]

/-! ## What is looked past -/

/-- What is looked past is a parenthesis, and an arrow or a curly bracket is looked for. -/
theorem of_looksPast (h : c.looksPast kind = true) :
    c.kind = .openParen ∧ (kind = .arrow ∨ kind = .openCurly) := by
  cases kind
  case arrow =>
    simp only [looksPast, Bool.and_eq_true, decide_eq_true_eq] at h
    exact ⟨h.1, .inl rfl⟩
  case openCurly =>
    simp only [looksPast, Bool.and_eq_true, decide_eq_true_eq] at h
    exact ⟨h.1.1, .inr rfl⟩
  all_goals cases h

/-- A parenthesis that an operand begins with and that is not closed is looked past. -/
theorem BeginsOperand.looksPast (h : c.BeginsOperand) (hkind : c.kind = .openParen)
    (hnone : groupAt? c.rest = none) : c.looksPast .arrow = true := by
  rcases h with h | ⟨-, hclosed⟩
  · simp [Cursor.looksPast, hkind, h]
  · exact absurd hnone (hclosed hkind)

/-- A parenthesis behind the `if` that a conditional begins with is looked past. -/
theorem BeginsConditional.looksPast (h : c.BeginsConditional) (hif : c.kind = .ifWord)
    (hkind : c.advance.kind = .openParen) : c.advance.looksPast .openCurly = true := by
  obtain ⟨t, hword, hbefore⟩ := advance_before hif (by decide)
  rw [BeginsConditional] at h
  simp [Cursor.looksPast, hkind, hbefore, hword, h]

end Cursor

end DiceScript
