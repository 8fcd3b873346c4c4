import DiceScript.Proofs.Grammar.Inset

/-!
Brackets that nest. In front of the rest of a script stands a part in which every bracket is closed
in turn and every separator stands inside brackets. Wherever reading has come to in that part, the
brackets that are being read are among those that are open there; others may be open as well, whose
constructs were given up. So no construct can take a token behind the part for its own.
-/

namespace DiceScript

variable {α β : Type}

/-! ## Tokens that nest -/

/-- Whether the token is a bracket that closes another. -/
def TokenKind.closes : TokenKind → Bool
  | closeParen | closeCurly | closeSquare => true
  | _ => false

/-- Whether the token separates statements. -/
def TokenKind.separates : TokenKind → Bool
  | semicolon | bar => true
  | _ => false

namespace Token

/-- Whether tokens close their brackets in turn and, before or after, the brackets that are waited
for; and whether every separator among them stands inside brackets. -/
def enclosed : List TokenKind → List Token → Bool
  | waiting, [] => waiting.isEmpty
  | waiting, t :: ts =>
    match t.kind.closing? with
    | some closing => enclosed (closing :: waiting) ts
    | none =>
      if t.kind.closes then waiting.head? = some t.kind && enclosed waiting.tail ts
      else (!t.kind.separates || !waiting.isEmpty) && enclosed waiting ts

variable {waiting : List TokenKind} {t : Token} {ts : List Token}

theorem enclosed_nil (h : enclosed waiting [] = true) : waiting = [] := List.isEmpty_iff.1 h

/-- What the first token can be: it opens a bracket, closes one, or does neither. -/
theorem enclosed_cases (h : enclosed waiting (t :: ts) = true) :
    (∃ closing, t.kind.closing? = some closing ∧ enclosed (closing :: waiting) ts = true) ∨
    (t.kind.closes = true ∧ ∃ others, waiting = t.kind :: others ∧ enclosed others ts = true) ∨
    (t.kind.closing? = none ∧ t.kind.closes = false ∧ (t.kind.separates = true → waiting ≠ []) ∧
      enclosed waiting ts = true) := by
  unfold enclosed at h
  split at h
  · rename_i closing hclosing
    exact .inl ⟨closing, hclosing, h⟩
  · rename_i hclosing
    split at h
    · rename_i hcloses
      obtain ⟨hhead, hrest⟩ := Bool.and_eq_true_iff.1 h
      cases waiting with
      | nil => simp at hhead
      | cons kind others =>
        have hkind : kind = t.kind := by simpa using hhead
        exact .inr (.inl ⟨hcloses, others, by rw [hkind], hrest⟩)
    · rename_i hcloses
      obtain ⟨hseparates, hrest⟩ := Bool.and_eq_true_iff.1 h
      refine .inr (.inr ⟨hclosing, by simpa using hcloses, fun hkind hnil => ?_, hrest⟩)
      rw [hkind, hnil] at hseparates
      cases hseparates

theorem closing?_of_closes {kind : TokenKind} (h : kind.closes = true) : kind.closing? = none := by
  cases kind <;> first | rfl | cases h

/-- A bracket that opens is none that closes. -/
theorem ne_of_closing? {kind other closing : TokenKind} (h : kind.closing? = some other)
    (hcloses : closing.closes = true) : kind ≠ closing := by
  rintro rfl
  rw [closing?_of_closes hcloses] at h
  cases h

theorem closes_of_closing? {kind closing : TokenKind} (h : kind.closing? = some closing) :
    closing.closes = true := by
  cases kind <;> cases h <;> rfl

theorem plain_of_separates {kind : TokenKind} (h : kind.separates = true) :
    kind.closing? = none ∧ kind.closes = false := by
  cases kind <;> first | exact ⟨rfl, rfl⟩ | cases h

/-- A separator stands inside a bracket, which is closed behind it. -/
theorem enclosed_separator (h : enclosed waiting (t :: ts) = true)
    (hkind : t.kind.separates = true) : waiting ≠ [] ∧ enclosed waiting ts = true ∧ ts ≠ [] := by
  obtain ⟨hopens, hno⟩ := plain_of_separates hkind
  rcases enclosed_cases h with ⟨closing, hclosing, -⟩ | ⟨hcloses, -⟩ | ⟨-, -, hopen, hwithin⟩
  · rw [hopens] at hclosing
    cases hclosing
  · rw [hno] at hcloses
    cases hcloses
  · refine ⟨hopen hkind, hwithin, ?_⟩
    rintro rfl
    exact hopen hkind (enclosed_nil hwithin)

theorem closing?_injective {kind kind' closing : TokenKind} (h : kind.closing? = some closing)
    (h' : kind'.closing? = some closing) : kind = kind' := by
  cases kind <;> cases h <;> cases kind' <;> cases h' <;> rfl

theorem opens_iff (kind : TokenKind) :
    [TokenKind.openParen, .openCurly, .openSquare].contains kind = kind.closing?.isSome := by
  cases kind <;> rfl

theorem closes_iff (kind : TokenKind) :
    [TokenKind.closeParen, .closeCurly, .closeSquare].contains kind = kind.closes := by
  cases kind <;> rfl

end Token

open Token

/-! ## Cursors -/

/-- A semicolon, and what stands behind it. -/
def BeginsBehind (tail : List Token) : Prop := ∃ t ts, tail = t :: ts ∧ t.kind = .semicolon

namespace Cursor

/-- Up to the tail, the tokens ahead close their brackets and those that are open. Among the open
ones are those that `base` closes. -/
def Encloses (tail : List Token) (base : List TokenKind) (c : Cursor) : Prop :=
  ∃ front waiting, c.rest = front ++ tail ∧ enclosed waiting front = true ∧ base.Sublist waiting

namespace Encloses

variable {tail : List Token} {base : List TokenKind} {closing : TokenKind} {c : Cursor}

/-- The construct that an inner bracket belongs to may be given up. -/
theorem outer (h : c.Encloses tail (closing :: base)) : c.Encloses tail base := by
  obtain ⟨front, waiting, hrest, hfront, hbase⟩ := h
  exact ⟨front, waiting, hrest, hfront, (List.sublist_cons_self closing base).trans hbase⟩

/-- The next token stands in front of the tail if it is no semicolon, or if a bracket is open. -/
theorem first (h : c.Encloses tail base) (htail : BeginsBehind tail)
    (hkind : c.kind ≠ .semicolon ∨ base ≠ []) :
    ∃ t front waiting, c.kind = t.kind ∧ c.advance.rest = front ++ tail ∧
      enclosed waiting (t :: front) = true ∧ base.Sublist waiting := by
  obtain ⟨front, waiting, hrest, hfront, hbase⟩ := h
  cases front with
  | nil =>
    have hwaiting := enclosed_nil hfront
    subst hwaiting
    have hnil : base = [] := List.sublist_nil.1 hbase
    obtain ⟨t, ts, rfl, ht⟩ := htail
    have hsemicolon : c.kind = .semicolon := by
      rw [Cursor.kind_eq, hrest]
      exact ht
    rcases hkind with hkind | hkind
    · exact absurd hsemicolon hkind
    · exact absurd hnil hkind
  | cons t front =>
    refine ⟨t, front, waiting, ?_, ?_, hfront, hbase⟩
    · rw [Cursor.kind_eq, hrest]
      rfl
    · simp [Cursor.advance, hrest]

theorem rest_ne_nil (h : c.Encloses tail base) (htail : BeginsBehind tail) : c.rest ≠ [] := by
  obtain ⟨front, waiting, hrest, -⟩ := h
  obtain ⟨t, ts, rfl, -⟩ := htail
  simp [hrest]

/-- A token that is no bracket is passed. -/
theorem plain (h : c.Encloses tail base) (htail : BeginsBehind tail)
    (hopens : c.kind.closing? = none) (hcloses : c.kind.closes = false)
    (hkind : c.kind ≠ .semicolon ∨ base ≠ []) : c.advance.Encloses tail base := by
  obtain ⟨t, front, waiting, ht, hrest, hfront, hbase⟩ := h.first htail hkind
  rw [ht] at hopens hcloses
  rcases enclosed_cases hfront with ⟨closing, hclosing, -⟩ | ⟨hcloses', -⟩ | ⟨-, -, -, hfront⟩
  · rw [hclosing] at hopens
    cases hopens
  · rw [hcloses'] at hcloses
    cases hcloses
  · exact ⟨front, waiting, hrest, hfront, hbase⟩

/-- A bracket is opened. -/
theorem opens (h : c.Encloses tail base) (htail : BeginsBehind tail)
    (hopens : c.kind.closing? = some closing) : c.advance.Encloses tail (closing :: base) := by
  have hkind : c.kind ≠ .semicolon := by
    intro hkind
    rw [hkind] at hopens
    cases hopens
  obtain ⟨t, front, waiting, ht, hrest, hfront, hbase⟩ := h.first htail (.inl hkind)
  rw [ht] at hopens
  rcases enclosed_cases hfront with ⟨closing', hclosing, hfront⟩ | ⟨hcloses, -⟩ | ⟨hnone, -⟩
  · rw [hopens] at hclosing
    cases hclosing
    exact ⟨front, closing :: waiting, hrest, hfront, List.cons_sublist_cons.2 hbase⟩
  · exact absurd rfl (ne_of_closing? hopens hcloses)
  · rw [hnone] at hopens
    cases hopens

/-- A bracket is closed. It may be one of a construct that was given up, and then the one that is
being read is closed further on. -/
theorem closes (h : c.Encloses tail (closing :: base)) (htail : BeginsBehind tail)
    (hkind : c.kind = closing) (hcloses : closing.closes = true) :
    c.advance.Encloses tail base := by
  obtain ⟨t, front, waiting, ht, hrest, hfront, hbase⟩ :=
    h.first htail (.inr (List.cons_ne_nil _ _))
  rw [← hkind, ht] at hcloses
  rcases enclosed_cases hfront with ⟨closing', hclosing, -⟩ | ⟨-, others, hwaiting, hothers⟩ |
    ⟨-, hno, -⟩
  · exact absurd rfl (ne_of_closing? hclosing hcloses)
  · rw [hwaiting, ← ht, hkind] at hbase
    exact ⟨front, others, hrest, hothers, List.cons_sublist_cons.1 hbase⟩
  · rw [hno] at hcloses
    cases hcloses

/-- In front of the tail a separator stands inside a bracket, which is closed behind it. -/
theorem separator (h : c.Encloses tail base) (hne : c.rest ≠ tail)
    (hkind : c.kind.separates = true) : c.advance.Encloses tail base ∧ c.advance.rest ≠ tail := by
  obtain ⟨front, waiting, hrest, hfront, hbase⟩ := h
  cases front with
  | nil => exact absurd hrest hne
  | cons t front =>
    rw [Cursor.kind_eq, hrest] at hkind
    obtain ⟨-, hwithin, hmore⟩ := enclosed_separator hfront hkind
    have hadvance : c.advance.rest = front ++ tail := by simp [Cursor.advance, hrest]
    refine ⟨⟨front, waiting, hadvance, hwithin, hbase⟩, ?_⟩
    rw [hadvance]
    simpa using hmore

end Encloses

theorem skip_succ (c : Cursor) (n : Nat) : c.skip (n + 1) = (c.skip n).advance := by
  induction n generalizing c with
  | zero => rfl
  | succ n ih => exact ih c.advance

/-- A token either closes the bracket that is waited for behind `inner`, or goes on with others in
place of `inner`, which count as the token says. -/
theorem enclosed_step {opening closing : TokenKind} (hclosing : opening.closing? = some closing)
    {inner waiting : List TokenKind} {t : Token} {ts : List Token}
    (h : enclosed (inner ++ closing :: waiting) (t :: ts) = true) :
    (inner.count closing = 0 ∧ t.kind = closing ∧ enclosed waiting ts = true) ∨
    ∃ inner', enclosed (inner' ++ closing :: waiting) ts = true ∧
      ∀ kinds, openAfter opening closing (inner.count closing) (t.kind :: kinds) =
        openAfter opening closing (inner'.count closing) kinds := by
  have hcloses := closes_of_closing? hclosing
  rcases enclosed_cases h with ⟨closing', hclosing', hwithin⟩ |
    ⟨hcloses', others, hwaiting, hothers⟩ | ⟨hnone, hno, -, hwithin⟩
  · refine .inr ⟨closing' :: inner, hwithin, fun kinds => ?_⟩
    by_cases hkind : t.kind = opening
    · rw [hkind, hclosing] at hclosing'
      cases hclosing'
      rw [openAfter, if_pos hkind, List.count_cons_self]
    · have hother : closing' ≠ closing := by
        rintro rfl
        exact hkind (closing?_injective hclosing' hclosing)
      rw [openAfter, if_neg hkind, if_neg (ne_of_closing? hclosing' hcloses),
        List.count_cons_of_ne hother]
  · have hopen := (ne_of_closing? hclosing hcloses').symm
    cases inner with
    | nil =>
      obtain ⟨hkind, rfl⟩ := List.cons.inj hwaiting
      exact .inl ⟨rfl, hkind.symm, hothers⟩
    | cons kind inner =>
      obtain ⟨rfl, rfl⟩ := List.cons.inj hwaiting
      refine .inr ⟨inner, hothers, fun kinds => ?_⟩
      by_cases hkind : t.kind = closing
      · rw [openAfter, if_neg hopen, if_pos hkind, hkind, List.count_cons_self,
          if_neg (Nat.succ_ne_zero _), Nat.add_sub_cancel]
      · rw [openAfter, if_neg hopen, if_neg hkind, List.count_cons_of_ne hkind]
  · have hopen : t.kind ≠ opening := by
      intro hkind
      rw [hkind, hclosing] at hnone
      cases hnone
    have hclose : t.kind ≠ closing := by
      intro hkind
      rw [hkind, hcloses] at hno
      cases hno
    exact .inr ⟨inner, hwithin, fun kinds => by rw [openAfter, if_neg hopen, if_neg hclose]⟩

/-- The bracket that closes as many of its kind as are open is the one that is waited for, since all
brackets nest. -/
theorem enclosed_behind {opening closing : TokenKind} (hclosing : opening.closing? = some closing)
    {inner waiting : List TokenKind} {tail front inside after : List Token} {bracket : Token}
    (h : enclosed (inner ++ closing :: waiting) front = true)
    (hfront : front ++ tail = inside ++ bracket :: after) (hbracket : bracket.kind = closing)
    (hopen : openAfter opening closing (inner.count closing) (inside.map Token.kind) = some 0) :
    ∃ more, after = more ++ tail ∧ enclosed waiting more = true := by
  have hclosed : ∀ kinds, openAfter opening closing 0 (closing :: kinds) = none := fun kinds => by
    rw [openAfter, if_neg (closing?_ne hclosing).1.symm, if_pos rfl, if_pos rfl]
  induction inside generalizing inner front with
  | nil =>
    cases front with
    | nil => exact absurd (enclosed_nil h) (by simp)
    | cons t front =>
      obtain ⟨rfl, rfl⟩ := List.cons.inj hfront
      rcases enclosed_step hclosing h with ⟨-, -, hmore⟩ | ⟨inner', -, hstep⟩
      · exact ⟨front, rfl, hmore⟩
      · have hzero : inner.count closing = 0 := Option.some.inj hopen
        have hnone := hstep []
        rw [hbracket, hzero, hclosed] at hnone
        cases hnone
  | cons u inside ih =>
    cases front with
    | nil => exact absurd (enclosed_nil h) (by simp)
    | cons t front =>
      obtain ⟨rfl, hbehind⟩ := List.cons.inj hfront
      rw [List.map_cons] at hopen
      rcases enclosed_step hclosing h with ⟨hzero, hkind, -⟩ | ⟨inner', hinner, hstep⟩
      · rw [hzero, hkind, hclosed] at hopen
        cases hopen
      · exact ih hinner hbehind ((hstep _).symm.trans hopen)

/-- Behind a whole group the same brackets are open. -/
theorem Encloses.behind_group {tail : List Token} {base : List TokenKind} {c : Cursor} {g : Group}
    (h : c.Encloses tail base) (htail : BeginsBehind tail) (hg : groupAt? c.rest = some g) :
    (c.skip (g.inside.length + 2)).Encloses tail base := by
  obtain ⟨hrest, hclosing, hopen⟩ := groupAt?_iff.1 hg
  rw [← kind_of_groupAt? hg] at hclosing hopen
  have hsemicolon : c.kind ≠ .semicolon := by
    intro hsemicolon
    rw [hsemicolon] at hclosing
    cases hclosing
  obtain ⟨t, front, waiting, ht, hfront, henclosed, hbase⟩ := h.first htail (.inl hsemicolon)
  have hinside : front ++ tail = g.inside ++ g.closing :: g.after := by
    rw [← hfront, Cursor.advance, hrest]
  rcases enclosed_cases henclosed with ⟨closing, hcloses, hwithin⟩ | ⟨hcloses, -⟩ | ⟨hnone, -⟩
  · rw [← ht, hclosing] at hcloses
    cases hcloses
    have hwithin' : enclosed ([] ++ g.closing.kind :: waiting) front = true := hwithin
    obtain ⟨more, hafter, hmore⟩ := enclosed_behind hclosing hwithin' hinside rfl hopen
    refine ⟨more, waiting, ?_, hmore, hbase⟩
    rw [rest_skip, hrest, ← hafter]
    simp
  · rw [ht] at hclosing
    exact absurd rfl (ne_of_closing? hclosing hcloses)
  · rw [ht, hnone] at hclosing
    cases hclosing

end Cursor

open Cursor Grammar

/-! ## What is skipped -/

/-- Skipping the rest of a statement stops in front of the bracket that closes the sequence, or of
the tail. The brackets opened since it began are closed by `inner`, and their number is the
depth. -/
theorem enclosed_skipLength {tail : List Token} (htail : BeginsBehind tail)
    {base inner waiting : List TokenKind} {front : List Token}
    (h : enclosed (inner ++ waiting) front = true) (hbase : base.Sublist waiting) :
    ∃ more waiting', (front ++ tail).drop (skipLength base.head? inner.length (front ++ tail)) =
      more ++ tail ∧ enclosed waiting' more = true ∧ base.Sublist waiting' := by
  induction front generalizing inner waiting with
  | nil =>
    obtain ⟨rfl, rfl⟩ := List.append_eq_nil_iff.1 (enclosed_nil h)
    obtain ⟨t, ts, rfl, ht⟩ := htail
    refine ⟨[], [], ?_, rfl, hbase⟩
    simp [skipLength, endsStatement, ht]
  | cons t front ih =>
    have hdrop : ∀ n, (t :: front ++ tail).drop (1 + n) = (front ++ tail).drop n := by
      intro n
      rw [Nat.add_comm, List.cons_append, List.drop_succ_cons]
    rw [List.cons_append, skipLength, opens_iff, closes_iff, ← List.cons_append]
    by_cases hends : (decide (inner.length = 0) && endsStatement base.head? t.kind) = true
    · rw [if_pos hends]
      refine ⟨t :: front, inner ++ waiting, rfl, h, ?_⟩
      exact hbase.trans (List.sublist_append_right _ _)
    · rw [if_neg hends]
      rcases enclosed_cases h with ⟨closing, hclosing, hfront⟩ |
        ⟨hcloses, others, hwaiting, hfront⟩ | ⟨hnone, hno, -, hfront⟩
      · rw [hclosing, Option.isSome_some, if_pos rfl, hdrop]
        rw [← List.cons_append] at hfront
        exact ih hfront hbase
      · rw [closing?_of_closes hcloses, hcloses, Option.isSome_none, if_neg (by decide), if_pos rfl,
          hdrop]
        cases inner with
        | nil =>
          -- a bracket of a construct that was given up, since the one of the sequence would end it
          rw [List.nil_append] at hwaiting
          subst hwaiting
          have hothers : base.Sublist others := by
            cases hbase with
            | cons _ hothers => exact hothers
            | cons_cons _ _ => simp [endsStatement] at hends
          rw [← List.nil_append others] at hfront
          exact ih hfront hothers
        | cons kind inner =>
          obtain ⟨-, rfl⟩ := List.cons.inj hwaiting
          exact ih hfront hbase
      · rw [hnone, hno, Option.isSome_none, if_neg (by decide), if_neg (by decide), hdrop]
        exact ih hfront hbase

/-- Skipping the rest of a statement stays where the brackets of the sequence are open. -/
theorem Cursor.Encloses.skipped {tail : List Token} {base : List TokenKind} {c : Cursor}
    (h : c.Encloses tail base) (htail : BeginsBehind tail) :
    (c.skip (skipLength base.head? 0 c.rest)).Encloses tail base := by
  obtain ⟨front, waiting, hrest, hfront, hbase⟩ := h
  have hwaiting : enclosed ([] ++ waiting) front = true := hfront
  obtain ⟨more, waiting', hmore, hmore', hbase'⟩ := enclosed_skipLength htail hwaiting hbase
  refine ⟨more, waiting', ?_, hmore', hbase'⟩
  rw [rest_skip, hrest]
  exact hmore

end DiceScript
