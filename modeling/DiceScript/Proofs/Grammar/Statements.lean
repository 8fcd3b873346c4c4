import DiceScript.Proofs.Grammar.Outcome
import DiceScript.Proofs.Token.Lexemes

/-!
The statements of a sequence as a list. A sequence is a tree that leans to the left; its statements,
each with a flag that tells whether a bar stands before it, say more plainly what was read.
-/

namespace DiceScript

namespace Grammar

open Reader

variable {read : Goal → Reader Expr} {terminator : Option TokenKind} {s : Setting}

/-- A statement of a sequence, and whether a bar stands before it. -/
structure Element where
  piped : Bool
  statement : Expr

/-- Puts statements, one after another, behind those before them. -/
def chained (before : Option Expr) (elements : List Element) : Option Expr :=
  elements.foldl (fun result element => some (followedBy element.piped element.statement result))
    before

theorem chained_append (before : Option Expr) (xs ys : List Element) :
    chained before (xs ++ ys) = chained (chained before xs) ys := List.foldl_append

theorem chained_some (first : Expr) (elements : List Element) :
    ∃ e, chained (some first) elements = some e := by
  induction elements generalizing first with
  | nil => exact ⟨first, rfl⟩
  | cons element elements ih => exact ih _

/-- A sequence ends in front of this kind of token. -/
def Ends (terminator : Option TokenKind) (kind : TokenKind) : Prop :=
  kind = .finish ∨ some kind = terminator

/-- What a turn of the loop over statements does. -/
theorem turn_cases {result : Option Expr} {piped : Bool} {p q : Progress} {t : Turn}
    (h : outcome (turn read terminator result piped) s p = some (t, q)) :
    (Ends terminator p.cursor.kind ∧ t = .last result ∧ q = p) ∨
    (¬ Ends terminator p.cursor.kind ∧ p.cursor.kind = .semicolon ∧ t = .again result piped ∧
      q = p.advanced) ∨
    (¬ Ends terminator p.cursor.kind ∧ p.cursor.kind ≠ .semicolon ∧
      ∃ e r, outcome (wholeStatement read terminator) s p = some (e, r) ∧
        ((r.cursor.kind = .semicolon ∧ t = .again (some (followedBy piped e result)) false ∧
            q = r.advanced) ∨
          (r.cursor.kind = .bar ∧ t = .again (some (followedBy piped e result)) true ∧
            q = r.advanced) ∨
          (r.cursor.kind ≠ .semicolon ∧ r.cursor.kind ≠ .bar ∧
            t = .last (some (followedBy piped e result)) ∧ q = r))) := by
  simp only [turn, outcome_bind, outcome_peek, Option.bind_some] at h
  split at h
  · rename_i hends
    cases h
    exact .inl ⟨by simpa [Ends] using hends, rfl, rfl⟩
  · rename_i hends
    have hopen : ¬ Ends terminator p.cursor.kind := by simpa [Ends] using hends
    split at h
    · rename_i hsemicolon
      cases h
      exact .inr (.inl ⟨hopen, hsemicolon, rfl, rfl⟩)
    · rename_i hkind
      rw [outcome_bind] at h
      obtain ⟨⟨e, r⟩, he, h⟩ := Option.bind_eq_some_iff.1 h
      refine .inr (.inr ⟨hopen, hkind, e, r, he, ?_⟩)
      simp only [outcome_bind, outcome_peek, Option.bind_some] at h
      split at h
      · rename_i hend
        cases h
        exact .inl ⟨hend, rfl, rfl⟩
      · rename_i hend
        cases h
        exact .inr (.inl ⟨hend, rfl, rfl⟩)
      · rename_i hsemicolon hbar
        cases h
        exact .inr (.inr ⟨hsemicolon, hbar, rfl, rfl⟩)

/-- A turn in front of the end of a sequence is the last one and reads nothing. -/
theorem turn_of_ends {result : Option Expr} {piped : Bool} {p : Progress}
    (h : Ends terminator p.cursor.kind) :
    outcome (turn read terminator result piped) s p = some (.last result, p) := by
  have hends : (decide (p.cursor.kind = .finish) || decide (some p.cursor.kind = terminator)) =
      true := by simpa [Ends] using h
  simp only [turn, outcome_bind, outcome_peek, Option.bind_some, hends, if_true, outcome_pure]

/-- What a turn reads, put behind what was read before. -/
def Turn.behind (result : Option Expr) (piped : Bool) : Turn → Turn
  | .last none => .last result
  | .last (some e) => .last (some (followedBy piped e result))
  | .again none next => .again result next
  | .again (some e) next => .again (some (followedBy piped e result)) next

theorem outcome_turn (result : Option Expr) (piped : Bool) (p : Progress) :
    outcome (turn read terminator result piped) s p =
      (outcome (turn read terminator none piped) s p).map fun r =>
        (r.1.behind result piped, r.2) := by
  simp only [turn, outcome_bind, outcome_peek, Option.bind_some]
  split
  · rfl
  · split
    · rfl
    · simp only [outcome_bind, outcome_peek, Option.bind_some]
      cases outcome (wholeStatement read terminator) s p with
      | none => rfl
      | some r =>
        simp only [Option.bind_some]
        split <;> rfl

variable (read terminator) in
/-- Reads statements and gives them one by one. -/
def elementsFrom : Nat → Bool → Reader (List Element)
  | 0, _ => exhausted
  | n + 1, piped => do
    match ← turn read terminator none piped with
    | .last none => return []
    | .last (some e) => return [⟨piped, e⟩]
    | .again none next => elementsFrom n next
    | .again (some e) next => return ⟨piped, e⟩ :: (← elementsFrom n next)

theorem outcome_statementsFrom_succ (n : Nat) (result : Option Expr) (piped : Bool)
    (p : Progress) :
    outcome (statementsFrom read terminator (n + 1) result piped) s p =
      (outcome (turn read terminator result piped) s p).bind fun
        | (.last result, q) => some (result, q)
        | (.again result piped, q) =>
          outcome (statementsFrom read terminator n result piped) s q := by
  rw [statementsFrom, outcome_bind]
  congr 1
  funext r
  obtain ⟨t, q⟩ := r
  cases t <;> rfl

/-- A sequence is its statements, put behind those read before. -/
theorem outcome_statementsFrom (n : Nat) (result : Option Expr) (piped : Bool) (p : Progress) :
    outcome (statementsFrom read terminator n result piped) s p =
      (outcome (elementsFrom read terminator n piped) s p).map fun r =>
        (chained result r.1, r.2) := by
  induction n generalizing result piped p with
  | zero => rfl
  | succ n ih =>
    rw [outcome_statementsFrom_succ, outcome_turn, elementsFrom, outcome_bind]
    cases outcome (turn read terminator none piped) s p with
    | none => rfl
    | some r =>
      obtain ⟨t, q⟩ := r
      rcases t with (_ | e) | ⟨_ | e, next⟩
      · rfl
      · rfl
      · exact ih result next q
      · refine (ih _ next q).trans ?_
        show _ = ((outcome (elementsFrom read terminator n next) s q).bind
          fun r => some (⟨piped, e⟩ :: r.1, r.2)).map _
        cases outcome (elementsFrom read terminator n next) s q <;> rfl

theorem outcome_sequence_elements (p : Progress) :
    outcome (sequence read terminator) s p =
      (outcome (elementsFrom read terminator (p.remaining + 1) false) s p).map fun r =>
        ((chained none r.1).getD .empty, r.2) := by
  rw [sequence, outcome_bind, outcome_remaining, Option.bind_some, outcome_bind,
    outcome_statementsFrom]
  cases outcome (elementsFrom read terminator (p.remaining + 1) false) s p <;> rfl

variable (read terminator s) in
/-- From one progress to another, these statements are read. -/
inductive Statements : Bool → Progress → List Element → Progress → Prop
  /-- The sequence ends. -/
  | stop {piped : Bool} {p : Progress} (h : Ends terminator p.cursor.kind) : Statements piped p [] p
  /-- An empty statement is passed. -/
  | skip {piped : Bool} {p q : Progress} {elements : List Element}
      (hopen : ¬ Ends terminator p.cursor.kind) (hkind : p.cursor.kind = .semicolon)
      (hrest : Statements piped p.advanced elements q) : Statements piped p elements q
  /-- A statement is read that nothing separates from a next one. -/
  | last {piped : Bool} {p q : Progress} {e : Expr} (hopen : ¬ Ends terminator p.cursor.kind)
      (hkind : p.cursor.kind ≠ .semicolon)
      (he : outcome (wholeStatement read terminator) s p = some (e, q))
      (hend : q.cursor.kind ≠ .semicolon ∧ q.cursor.kind ≠ .bar) :
      Statements piped p [⟨piped, e⟩] q
  /-- A statement is read, and what separates it from the next is passed. -/
  | next {piped : Bool} {p r q : Progress} {e : Expr} {elements : List Element}
      (hopen : ¬ Ends terminator p.cursor.kind) (hkind : p.cursor.kind ≠ .semicolon)
      (he : outcome (wholeStatement read terminator) s p = some (e, r))
      (hend : r.cursor.kind = .semicolon ∨ r.cursor.kind = .bar)
      (hrest : Statements (r.cursor.kind = .bar) r.advanced elements q) :
      Statements piped p (⟨piped, e⟩ :: elements) q

/-- Reading the statements as a list leads to them. -/
theorem statements_of_elementsFrom {n : Nat} {piped : Bool} {p q : Progress}
    {elements : List Element}
    (h : outcome (elementsFrom read terminator n piped) s p = some (elements, q)) :
    Statements read terminator s piped p elements q := by
  induction n generalizing p piped elements with
  | zero => cases h
  | succ n ih =>
    rw [elementsFrom, outcome_bind] at h
    obtain ⟨⟨t, r⟩, hturn, hafter⟩ := Option.bind_eq_some_iff.1 h
    rcases turn_cases hturn with ⟨hends, rfl, rfl⟩ | ⟨hopen, hkind, rfl, rfl⟩ |
      ⟨hopen, hkind, e, r', he, hnext⟩
    · cases hafter
      exact .stop hends
    · exact .skip hopen hkind (ih hafter)
    · rcases hnext with ⟨hend, rfl, rfl⟩ | ⟨hend, rfl, rfl⟩ | ⟨hsemicolon, hbar, rfl, rfl⟩
      · obtain ⟨⟨rest, q⟩, hrest, heq⟩ := Option.bind_eq_some_iff.1 hafter
        cases heq
        refine .next hopen hkind he (.inl hend) ?_
        simpa [hend] using ih hrest
      · obtain ⟨⟨rest, q⟩, hrest, heq⟩ := Option.bind_eq_some_iff.1 hafter
        cases heq
        refine .next hopen hkind he (.inr hend) ?_
        simpa [hend] using ih hrest
      · cases hafter
        exact .last hopen hkind he ⟨hsemicolon, hbar⟩

theorem Statements.head_piped {piped : Bool} {p q : Progress} {elements : List Element}
    (h : Statements read terminator s piped p elements q) :
    ∀ element ∈ elements.head?, element.piped = piped := by
  induction h with
  | stop _ => nofun
  | skip _ _ _ ih => exact ih
  | last _ _ _ _ => simp
  | next _ _ _ _ _ _ => simp

/-- From a progress, one list of statements is read. -/
theorem Statements.unique {piped : Bool} {p q q' : Progress} {elements elements' : List Element}
    (h : Statements read terminator s piped p elements q)
    (h' : Statements read terminator s piped p elements' q') : elements = elements' ∧ q = q' := by
  induction h generalizing elements' with
  | stop hends =>
    cases h' with
    | stop _ => exact ⟨rfl, rfl⟩
    | skip hopen _ _ => exact absurd hends hopen
    | last hopen _ _ _ => exact absurd hends hopen
    | next hopen _ _ _ _ => exact absurd hends hopen
  | skip hopen hkind _ ih =>
    cases h' with
    | stop hends => exact absurd hends hopen
    | skip _ _ hrest => exact ih hrest
    | last _ hkind' _ _ => exact absurd hkind hkind'
    | next _ hkind' _ _ _ => exact absurd hkind hkind'
  | last hopen hkind he hend =>
    cases h' with
    | stop hends => exact absurd hends hopen
    | skip _ hkind' _ => exact absurd hkind' hkind
    | last _ _ he' _ =>
      rw [he] at he'
      cases he'
      exact ⟨rfl, rfl⟩
    | next _ _ he' hend' _ =>
      rw [he] at he'
      cases he'
      rcases hend' with hend' | hend'
      · exact absurd hend' hend.1
      · exact absurd hend' hend.2
  | next hopen hkind he hend _ ih =>
    cases h' with
    | stop hends => exact absurd hends hopen
    | skip _ hkind' _ => exact absurd hkind' hkind
    | last _ _ he' hend' =>
      rw [he] at he'
      cases he'
      rcases hend with hend | hend
      · exact absurd hend hend'.1
      · exact absurd hend hend'.2
    | next _ _ he' _ hrest' =>
      rw [he] at he'
      cases he'
      obtain ⟨rfl, rfl⟩ := ih hrest'
      exact ⟨rfl, rfl⟩

end Grammar

/-- The statements of a text, one after another. -/
def Script.statements (text : String) : List Grammar.Element :=
  let tokens := (Token.lex text.toList).1
  let reader :=
    Grammar.elementsFrom (Grammar.readWithin tokens.length) none (tokens.length + 1) false
  ((Reader.outcome reader ⟨text.toList, true⟩ ⟨.ofTokens tokens, []⟩).map Prod.fst).getD []

end DiceScript
