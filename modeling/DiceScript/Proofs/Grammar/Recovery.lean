import DiceScript.Proofs.Grammar.Joined
import DiceScript.Proofs.Grammar.Mistakes.Rules
import DiceScript.Proofs.Grammar.Nesting.Rules

/-!
Going on after a mistake. Behind a part of a script whose brackets nest, in which every separator
stands inside brackets, the statements of what follows are read, whatever is wrong with that part.
But the part itself may become several statements. What a statement leaves unread is skipped up to a
separator outside of brackets, and the brackets that the statement has opened and not closed do not
count. So a separator inside one of those ends the statement, and the rest of the bracket is read as
a statement of its own.
-/

namespace DiceScript

open Reader Grammar Token

/-! ## Separators that are not enclosed -/

/-- Whether a separator stands outside of every bracket that is open: of `depth` brackets, and of
those that the tokens open. A bracket that is closed and was not opened is passed. -/
def Token.exposes : Nat → List Token → Bool
  | _, [] => false
  | depth, t :: ts =>
    if depth = 0 && t.kind.separates then true
    else if t.kind.closing?.isSome then exposes (depth + 1) ts
    else if t.kind.closes then exposes (depth - 1) ts
    else exposes depth ts

theorem endsStatement_none (kind : TokenKind) : endsStatement none kind = kind.separates := by
  cases kind <;> rfl

/-- All tokens in front of the tail are skipped, unless they expose a separator. -/
theorem skipLength_eq_length_iff {tail : List Token} (htail : BeginsBehind tail)
    {inner waiting : List TokenKind} {front : List Token}
    (h : enclosed (inner ++ waiting) front = true) :
    skipLength none inner.length (front ++ tail) = front.length ↔
      exposes inner.length front = false := by
  induction front generalizing inner waiting with
  | nil =>
    obtain ⟨rfl, -⟩ := List.append_eq_nil_iff.1 (enclosed_nil h)
    obtain ⟨t, ts, rfl, ht⟩ := htail
    simp [skipLength, endsStatement, exposes, ht]
  | cons t front ih =>
    have hsucc : ∀ n, 1 + n = (t :: front).length ↔ n = front.length := by
      intro n
      rw [List.length_cons]
      omega
    rw [List.cons_append, skipLength, exposes, opens_iff, closes_iff, endsStatement_none]
    by_cases hends : (decide (inner.length = 0) && t.kind.separates) = true
    · rw [if_pos hends, if_pos hends]
      simp
    · rw [if_neg hends, if_neg hends]
      rcases enclosed_cases h with ⟨closing, hclosing, hfront⟩ |
        ⟨hcloses, others, hwaiting, hfront⟩ | ⟨hnone, hno, -, hfront⟩
      · rw [hclosing, Option.isSome_some, if_pos rfl, if_pos rfl, hsucc]
        rw [← List.cons_append] at hfront
        exact ih hfront
      · rw [closing?_of_closes hcloses, hcloses, Option.isSome_none]
        simp only [Bool.false_eq_true, if_false, if_true, hsucc]
        cases inner with
        | nil =>
          rw [← List.nil_append others] at hfront
          exact ih hfront
        | cons kind inner =>
          obtain ⟨-, rfl⟩ := List.cons.inj hwaiting
          exact ih hfront
      · rw [hnone, hno, Option.isSome_none]
        simp only [Bool.false_eq_true, if_false, hsucc]
        exact ih hfront

/-! ## Statements of the part and behind it -/

section

variable {tail : List Token} {read : Goal → Reader Expr} {s : Setting}

variable (tail read s) in
/-- Statements are some of the part in front of the tail, and then those behind the semicolon that
the tail begins with. -/
def Resumes (elements own : List Element) (q : Progress) : Prop :=
  ∃ more r, elements = own ++ more ∧ Statements read none s false r more q ∧
    r.cursor.rest = tail.tail

/-- Behind a statement that ended in front of a separator: either that is the end of the part, or
more of the part follows. -/
theorem resumes_behind (htail : BeginsBehind tail) {r q : Progress} {elements : List Element}
    (hr : r.cursor.Encloses tail []) (hend : r.cursor.kind.separates = true)
    (hs : Statements read none s (r.cursor.kind = .bar) r.advanced elements q)
    (hnext : r.cursor.advance.Encloses tail [] → r.cursor.advance.rest ≠ tail →
      ∃ own, Resumes tail read s elements own q ∧ own ≠ []) :
    ∃ own, Resumes tail read s elements own q ∧ (own = [] ↔ r.cursor.rest = tail) := by
  by_cases hrest : r.cursor.rest = tail
  · obtain ⟨t, ts, rfl, ht⟩ := htail
    have hkind : r.cursor.kind = .semicolon := by
      rw [Cursor.kind_eq, hrest]
      exact ht
    refine ⟨[], ⟨elements, r.advanced, rfl, ?_, ?_⟩, iff_of_true rfl hrest⟩
    · simpa [hkind] using hs
    · simp [Progress.advanced, Cursor.advance, hrest]
  · obtain ⟨hadvance, hmore⟩ := hr.separator hrest hend
    obtain ⟨own, hresumes, hown⟩ := hnext hadvance hmore
    exact ⟨own, hresumes, iff_of_false hown hrest⟩

theorem separates_of_ends {kind : TokenKind} (h : kind = .semicolon ∨ kind = .bar) :
    kind.separates = true := by
  rcases h with rfl | rfl <;> rfl

/-- From inside the part, statements of the part are read, and then those behind its semicolon. The
induction is on the statements; as long as one is read of the part, the tail is ahead. -/
theorem statements_resume (h : ReadsNested tail read) (htail : BeginsBehind tail) {piped : Bool}
    {p q : Progress} {elements : List Element} (hs : Statements read none s piped p elements q)
    (hq : q.cursor.rest = []) (hp : p.cursor.Encloses tail []) (hne : p.cursor.rest ≠ tail) :
    ∃ own, Resumes tail read s elements own q ∧ own ≠ [] := by
  induction hs with
  | stop _ => exact absurd hq (hp.rest_ne_nil htail)
  | skip _ hkind _ ih =>
    obtain ⟨hadvance, hmore⟩ := hp.separator hne (separates_of_ends (.inl hkind))
    exact ih hq hadvance hmore
  | last _ _ he _ =>
    have hend := wholeStatement_leads h htail hp rfl s _ _ _ rfl he
    exact absurd hq (hend.rest_ne_nil htail)
  | @next piped p r q e elements _ _ he hend hs ih =>
    have hr := wholeStatement_leads h htail hp rfl s p e r rfl he
    obtain ⟨own, ⟨more, r', rfl, hmore, hrest'⟩, -⟩ :=
      resumes_behind htail hr (separates_of_ends hend) hs (ih hq)
    exact ⟨⟨piped, e⟩ :: own, ⟨more, r', rfl, hmore, hrest'⟩, List.cons_ne_nil _ _⟩

/-- Where a statement has ended, nothing is skipped. -/
theorem skipLength_of_separates {c : Cursor} (h : c.kind.separates = true) :
    skipLength none 0 c.rest = 0 := by
  rw [Cursor.kind_eq] at h
  cases hrest : c.rest with
  | nil =>
    rw [hrest] at h
    cases h
  | cons t ts =>
    rw [hrest] at h
    rw [skipLength, endsStatement_none, if_pos]
    simpa using h

/-- A statement is read, and then the rest of it is skipped. -/
theorem wholeStatement_skips {p r : Progress} {e : Expr}
    (he : outcome (wholeStatement read none) s p = some (e, r))
    (hend : r.cursor.kind.separates = true) :
    ∃ e' q, outcome (statement read) s p = some (e', q) ∧
      r.cursor.rest = q.cursor.rest.drop (skipLength none 0 q.cursor.rest) := by
  rw [wholeStatement, Reader.outcome_bind] at he
  obtain ⟨⟨e', q⟩, hstatement, he⟩ := Option.bind_eq_some_iff.1 he
  refine ⟨e', q, hstatement, ?_⟩
  simp only [Reader.outcome_bind, outcome_peek, Option.bind_some] at he
  by_cases hfinished : (decide (q.cursor.kind = .finish) || endsStatement none q.cursor.kind) = true
  · rw [if_pos hfinished] at he
    cases he
    rw [skipLength_of_separates hend, List.drop_zero]
  · rw [if_neg hfinished] at he
    -- the mistake that may be noted moves nothing
    by_cases herror : e'.isError = true
    · rw [if_pos herror] at he
      cases he
      exact Cursor.rest_skip _ _
    · rw [if_neg herror] at he
      cases he
      exact Cursor.rest_skip _ _

theorem drop_eq_tail_iff (htail : BeginsBehind tail) {front : List Token} {n : Nat} :
    (front ++ tail).drop n = tail ↔ n = front.length := by
  constructor
  · intro h
    obtain ⟨t, ts, rfl, -⟩ := htail
    have hlength := congrArg List.length h
    rw [List.length_drop, List.length_append, List.length_cons] at hlength
    omega
  · rintro rfl
    exact List.drop_left

/-- The first statement of the part. It leaves some of the part unread, and nothing else of the part
becomes a statement just if that exposes no separator. -/
theorem statements_of_part (h : ReadsNested tail read) (htail : BeginsBehind tail)
    {p q : Progress} {elements : List Element} (hs : Statements read none s false p elements q)
    (hq : q.cursor.rest = []) {front : List Token} (hrest : p.cursor.rest = front ++ tail)
    (hfront : enclosed [] front = true) (hne : front ≠ []) :
    ∃ own e r left, Resumes tail read s elements own q ∧ own ≠ [] ∧
      outcome (statement read) s p = some (e, r) ∧ r.cursor.rest = left ++ tail ∧
      (own.length = 1 ↔ exposes 0 left = false) := by
  have hp : p.cursor.Encloses tail [] := ⟨front, [], hrest, hfront, List.nil_sublist _⟩
  cases hs with
  | stop _ => exact absurd hq (hp.rest_ne_nil htail)
  | skip _ hkind _ =>
    -- no separator of the part stands outside of its brackets
    obtain ⟨t, front, rfl⟩ := List.exists_cons_of_ne_nil hne
    rw [Cursor.kind_eq, hrest] at hkind
    exact absurd rfl (enclosed_separator hfront (separates_of_ends (.inl hkind))).1
  | last _ _ he _ =>
    have hend := wholeStatement_leads h htail hp rfl s p _ q rfl he
    exact absurd hq (hend.rest_ne_nil htail)
  | @next _ _ r _ e elements _ _ he hend hs =>
    have hseparates := separates_of_ends hend
    have hr := wholeStatement_leads h htail hp rfl s p e r rfl he
    obtain ⟨own, ⟨more, r', rfl, hmore, hrest'⟩, hown⟩ :=
      resumes_behind htail hr hseparates hs (statements_resume h htail hs hq)
    obtain ⟨e', q', hstatement, hskipped⟩ := wholeStatement_skips he hseparates
    obtain ⟨left, waiting, hleft, hwithin, -⟩ :=
      statement_stays h htail [] p.cursor hp s p e' q' rfl hstatement
    refine ⟨⟨false, e⟩ :: own, e', q', left, ⟨more, r', rfl, hmore, hrest'⟩,
      List.cons_ne_nil _ _, hstatement, hleft, ?_⟩
    have hinner : enclosed ([] ++ waiting) left = true := hwithin
    calc (⟨false, e⟩ :: own).length = 1
      _ ↔ own = [] := by simp
      _ ↔ r.cursor.rest = tail := hown
      _ ↔ skipLength none 0 (left ++ tail) = left.length := by
        rw [hskipped, hleft]
        exact drop_eq_tail_iff htail
      _ ↔ exposes 0 left = false := skipLength_eq_length_iff htail hinner

end

/-! ## Two texts -/

/-- The tokens that the first statement of a text leaves unread: those behind it, or those behind
the place where it was given up. -/
def Script.unread (text : String) : List Token :=
  let tokens := scanned text
  let first := outcome (statement (readWithin tokens.length)) ⟨text.toList, true⟩
    ⟨.ofTokens tokens, []⟩
  (first.map fun r => r.2.cursor.rest).getD []

namespace Grammar

/-- What the first statement leaves unread stands at the end of the text. -/
theorem unread_suffix (text : String) : Script.unread text <:+ scanned text := by
  have hread := readWithin_alike (Nat.le_refl (scanned text).length)
    (Nat.le_refl (scanned text).length)
  obtain ⟨e, q, hq, -, passed, hpassed, -⟩ :=
    statement_alike hread ⟨text.toList, true⟩ ⟨.ofTokens (scanned text), []⟩ (Nat.lt_succ_self _)
  have hunread : Script.unread text = q.cursor.rest :=
    congrArg (fun o => (o.map fun r => r.2.cursor.rest).getD []) hq
  rw [hunread]
  exact ⟨passed, hpassed.symm⟩

/-- Behind a text whose brackets nest, in which every separator stands inside brackets, the
statements of another text are read, whatever is wrong with the first. The first text is one
statement just if what this leaves unread of it exposes no separator. No literal of the first text
is left open, since that one would reach into the second. -/
theorem what_follows_a_closed_text_is_read {first second : String}
    (hsmall : (first ++ ";" ++ second).utf8ByteSize < 2 ^ 32) (hne : scanned first ≠ [])
    (hclosed : Token.enclosed [] (scanned first) = true)
    (hliteral : ∀ t ∈ (scanned first).getLast?, ¬ t.IsOpenLiteral)
    {follower : Script} (hparse : Script.parse second = some follower)
    (hsecond : follower.mistakes = []) :
    ∃ own left behind script, Script.parse (first ++ ";" ++ second) = some script ∧
      Script.statements (first ++ ";" ++ second) = own ++ Script.statements second ∧
      script.root = (chained none (own ++ Script.statements second)).getD .empty ∧
      scanned (first ++ ";" ++ second) = scanned first ++ behind ∧
      Script.unread (first ++ ";" ++ second) = left ++ behind ∧ left <:+ scanned first ∧
      own ≠ [] ∧ (own.length = 1 ↔ Token.exposes 0 left = false) := by
  have hfollower : second.utf8ByteSize < 2 ^ 32 := by
    rw [String.utf8ByteSize_append, String.utf8ByteSize_append] at hsmall
    omega
  obtain rfl : Script.ofText second = follower :=
    Option.some.inj ((Script.parse_of_small hfollower).symm.trans hparse)
  have htokens := scanned_joined first second hliteral
  obtain ⟨q, hs, hscript, hend⟩ := statements_of_text (first ++ ";" ++ second) (Nat.le_refl _)
  have hlength := congrArg List.length htokens
  rw [List.length_append, List.length_cons, List.length_map] at hlength
  generalize hbehind : Token.semicolonAt (Token.lex first.toList).2 ::
    (scanned second).map (Token.moved ((Token.lex first.toList).2.next ';')) = behind at htokens
  have htail : BeginsBehind behind := ⟨_, _, hbehind.symm, rfl⟩
  obtain ⟨own, e, r, left, ⟨more, r', helements, hmore, hrest'⟩, hown, hstatement, hleft, hone⟩ :=
    statements_of_part (readWithin_nested htail _) htail hs hend htokens hclosed hne
  -- behind the semicolon the other text is read
  have hrest : r'.cursor.rest =
      (scanned second).map (Token.moved ((Token.lex first.toList).2.next ';')) := by
    rw [hrest', ← hbehind]
    rfl
  obtain ⟨q', hs', -⟩ := statements_behind first hsmall hsecond
    (n := (scanned (first ++ ";" ++ second)).length) (by omega) hrest
  obtain ⟨rfl, -⟩ := hmore.unique hs'
  have hunread : Script.unread (first ++ ";" ++ second) = left ++ behind := by
    rw [← hleft]
    exact congrArg (fun o => (o.map fun r => r.2.cursor.rest).getD []) hstatement
  have hsuffix : left <:+ scanned first := by
    have hwhole := unread_suffix (first ++ ";" ++ second)
    rw [hunread, htokens] at hwhole
    exact ((List.suffix_append_inj_of_length_eq rfl).1 hwhole).1
  refine ⟨own, left, behind, _, Script.parse_of_small hsmall, helements, ?_, htokens, hunread,
    hsuffix, hown, hone⟩
  rw [hscript, helements]

/-- The square brackets are opened behind the place where the call is given up, and so what they
hold is skipped. -/
theorem a_broken_call_is_one_statement :
    Token.enclosed [] (scanned "f(1 2 [3; x = 4])") = true ∧
      ∃ own, Script.statements ("f(1 2 [3; x = 4])" ++ ";" ++ "4 | 5") =
        own ++ Script.statements "4 | 5" ∧ own.length = 1 := by
  have hne : scanned "f(1 2 [3; x = 4])" ≠ [] := by decide +kernel
  have hclosed : Token.enclosed [] (scanned "f(1 2 [3; x = 4])") = true := by decide +kernel
  have hsecond : (Script.ofText "4 | 5").mistakes = [] := by decide +kernel
  obtain ⟨own, left, behind, script, -, hstatements, -, htokens, hunread, -, -, hone⟩ :=
    what_follows_a_closed_text_is_read (by decide +kernel) hne hclosed (by decide +kernel)
      (Script.parse_of_small (by decide)) hsecond
  refine ⟨hclosed, own, hstatements, hone.2 ?_⟩
  -- all but the first three tokens of the call are left unread
  have hcount : (scanned "f(1 2 [3; x = 4])").length = 12 := by decide +kernel
  have hwhole : Script.unread ("f(1 2 [3; x = 4])" ++ ";" ++ "4 | 5") =
      (scanned ("f(1 2 [3; x = 4])" ++ ";" ++ "4 | 5")).drop 3 := by decide +kernel
  have hleft : left = (scanned "f(1 2 [3; x = 4])").drop 3 := by
    rw [hunread, htokens, List.drop_append_of_le_length (by omega)] at hwhole
    exact List.append_cancel_right hwhole
  rw [hleft]
  decide +kernel

/-- The parenthesis is opened in front of that place, and so the assignment in it is a statement of
its own. -/
theorem a_broken_call_is_two_statements :
    scanned "f(1 2; x = 3)" ≠ [] ∧ Token.enclosed [] (scanned "f(1 2; x = 3)") = true ∧
      (∀ t ∈ (scanned "f(1 2; x = 3)").getLast?, ¬ t.IsOpenLiteral) ∧
      (Script.ofText "4").mistakes = [] ∧ (Script.ofText "4").root ≠ .empty ∧
      ∀ element, Script.statements ("f(1 2; x = 3)" ++ ";" ++ "4") ≠
        element :: Script.statements "4" := by
  have hkind : (Script.ofText "4").root.kind ≠ Expr.empty.kind := by decide +kernel
  refine ⟨by decide +kernel, by decide +kernel, by decide +kernel, by decide +kernel,
    fun h => hkind (congrArg Expr.kind h), ?_⟩
  intro element h
  have hlength := congrArg List.length h
  rw [List.length_cons] at hlength
  exact absurd hlength (by decide +kernel)

end Grammar

end DiceScript
