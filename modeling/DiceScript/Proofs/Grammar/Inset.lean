import DiceScript.Proofs.Grammar.Lookahead

/-!
A text inside a larger one. What is read of a text without mistakes is read of it in the same way
where nothing follows it and where a semicolon does, wherever its tokens stand. To say so, a reader
on the tokens of the text alone is compared with a reader on the same tokens inside the larger text.
-/

namespace DiceScript

open Cursor Reader

variable {α β : Type}

/-- A text inside a larger one: its tokens, how they are moved there, and the tokens after them. -/
structure Inset where
  own : List Char
  whole : List Char
  tokens : List Token
  tail : List Token
  move : Token → Token
  move_kind (t : Token) : (move t).kind = t.kind
  move_text (t : Token) : (move t).text = t.text
  /-- What follows begins with a semicolon. -/
  tail_begins : ∀ t ∈ tail.head?, t.kind = .semicolon
  /-- Between two tokens stands the same text. -/
  between {xs ys zs : List Token} {a b : Token} : tokens = xs ++ a :: (ys ++ b :: zs) →
    Text.slice whole (move a).span.last.offset.toNat (move b).span.first.offset.toNat =
      Text.slice own a.span.last.offset.toNat b.span.first.offset.toNat
  /-- No parenthesis that is looked past is closed by one of what follows, in front of what is
  looked for. -/
  apart {c : Cursor} {kind : TokenKind} {g : Group} : c ∈ outsideBodies tokens →
    c.looksPast kind = true → groupAt? c.rest = none →
    groupAt? (c.rest.map move ++ tail) = some g → g.followedBy kind = false

namespace Inset

variable (i : Inset)

/-! ## Cursors -/

/-- A cursor that reading may come to: it stands in the tokens of the text, and not inside the body
of a function. -/
def Arrived (c : Cursor) : Prop := c ∈ outsideBodies i.tokens

/-- A cursor in the text and one in the larger text that have the same tokens of the text ahead. -/
structure Beside (c c' : Cursor) : Prop where
  rest : c'.rest = c.rest.map i.move ++ i.tail

variable {i} {c c' : Cursor}

theorem Arrived.parts (h : i.Arrived c) : i.tokens = c.before.reverse ++ c.rest :=
  (within_of_outside h).symm

namespace Beside

theorem kindAt_eq (h : i.Beside c c') {n : Nat} (hn : n < c.rest.length) :
    c'.kindAt n = c.kindAt n := by
  have hget : c'.rest[n]? = c.rest[n]?.map i.move := by
    rw [h.rest, List.getElem?_append_left (by simpa using hn), List.getElem?_map]
  unfold kindAt
  rw [hget, List.getElem?_eq_getElem hn]
  exact i.move_kind _

/-- Behind the last token of the text stands the end or a semicolon. -/
theorem kindAt_length (h : i.Beside c c') :
    c'.kindAt c.rest.length = .finish ∨ c'.kindAt c.rest.length = .semicolon := by
  have hget : c'.rest[c.rest.length]? = i.tail.head? := by
    rw [h.rest, List.getElem?_append_right (by simp)]
    simp [List.head?_eq_getElem?]
  unfold kindAt
  rw [hget]
  cases htail : i.tail.head? with
  | none => exact .inl rfl
  | some t => exact .inr (i.tail_begins t htail)

/-- The next kinds are the same, or the text is at its end and a semicolon follows. -/
theorem kind_eq_or (h : i.Beside c c') :
    c'.kind = c.kind ∨ (c.rest = [] ∧ c'.kind = .semicolon) := by
  by_cases hrest : c.rest = []
  · have hend := h.kindAt_length
    rw [hrest] at hend
    rcases hend with hend | hend
    · left
      have hown : c.kind = .finish := by rw [Cursor.kind_eq, hrest]; rfl
      rw [hown]
      exact hend
    · exact .inr ⟨hrest, hend⟩
  · exact .inl (h.kindAt_eq (List.length_pos_iff.2 hrest))

/-- At most one token further on than the text, the kinds are the same but for a semicolon in place
of the end. -/
theorem kindAt_eq_iff (h : i.Beside c c') {n : Nat} (hn : n ≤ c.rest.length) {kind : TokenKind}
    (hfinish : kind ≠ .finish) (hsemicolon : kind ≠ .semicolon) :
    c'.kindAt n = kind ↔ c.kindAt n = kind := by
  rcases Nat.lt_or_eq_of_le hn with hlt | rfl
  · rw [h.kindAt_eq hlt]
  · have hown : c.kindAt c.rest.length = .finish := by
      unfold kindAt
      rw [List.getElem?_eq_none (Nat.le_refl _)]
    rw [hown]
    constructor
    · rintro rfl
      rcases h.kindAt_length with hend | hend
      · exact absurd hend hfinish
      · exact absurd hend hsemicolon
    · exact fun hkind => absurd hkind.symm hfinish

theorem kind_eq_iff (h : i.Beside c c') {kind : TokenKind} (hfinish : kind ≠ .finish)
    (hsemicolon : kind ≠ .semicolon) : c'.kind = kind ↔ c.kind = kind :=
  h.kindAt_eq_iff (Nat.zero_le _) hfinish hsemicolon

theorem rest_cons (h : i.Beside c c') {token : Token} {rest : List Token}
    (hrest : c.rest = token :: rest) :
    c'.rest = i.move token :: (rest.map i.move ++ i.tail) := by
  rw [h.rest, hrest]
  rfl

theorem skip (h : i.Beside c c') {n : Nat} (hn : n ≤ c.rest.length) :
    i.Beside (c.skip n) (c'.skip n) := by
  refine ⟨?_⟩
  rw [rest_skip, rest_skip, h.rest, List.drop_append_of_le_length (by simpa using hn),
    List.map_drop]

theorem advance (h : i.Beside c c') (hrest : c.rest ≠ []) : i.Beside c.advance c'.advance :=
  h.skip (n := 1) (List.length_pos_iff.2 hrest)

end Beside

/-! ## Groups -/

/-- The group as it stands in the larger text. -/
def movedGroup (i : Inset) (g : Group) : Group :=
  ⟨i.move g.opening, g.inside.map i.move, i.move g.closing, g.after.map i.move ++ i.tail⟩

theorem groupAt?_move {ts : List Token} {g : Group} (h : groupAt? ts = some g) :
    groupAt? (ts.map i.move ++ i.tail) = some (i.movedGroup g) := by
  obtain ⟨hparts, hclosing, hopen⟩ := groupAt?_iff.1 h
  refine groupAt?_iff.2 ⟨?_, ?_, ?_⟩
  · simp [hparts, movedGroup]
  · simpa only [movedGroup, i.move_kind] using hclosing
  · simpa only [movedGroup, i.move_kind, List.map_map, Function.comp_def] using hopen

theorem followedBy_move (g : Group) {kind : TokenKind} (hkind : kind ≠ .semicolon) :
    (i.movedGroup g).followedBy kind = g.followedBy kind := by
  unfold Group.followedBy movedGroup
  cases g.after with
  | nil =>
    dsimp only
    rw [List.map_nil, List.nil_append]
    cases htail : i.tail.head? with
    | none => rfl
    | some t => simp [i.tail_begins t htail, Ne.symm hkind]
  | cons t after => simp [i.move_kind]

/-- A parenthesis that is looked past is the same in the larger text. -/
theorem Beside.filter_groupAt? {c c' : Cursor} (h : i.Beside c c') (hc : i.Arrived c)
    {kind : TokenKind} (hsemicolon : kind ≠ .semicolon)
    (hlooks : groupAt? c.rest = none → c.looksPast kind = true) :
    (groupAt? c'.rest).filter (·.followedBy kind) =
      ((groupAt? c.rest).filter (·.followedBy kind)).map i.movedGroup := by
  rw [h.rest]
  cases hown : groupAt? c.rest with
  | some g =>
    rw [groupAt?_move hown, Option.filter_some, Option.filter_some, followedBy_move g hsemicolon]
    split <;> rfl
  | none =>
    cases hwhole : groupAt? (c.rest.map i.move ++ i.tail) with
    | none => rfl
    | some g => simp [i.apart hc (hlooks hown) hown hwhole]

end Inset

end DiceScript
