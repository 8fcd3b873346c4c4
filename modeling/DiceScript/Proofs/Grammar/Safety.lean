import DiceScript.Proofs.Grammar.Bounds
import DiceScript.Proofs.Grammar.Rules
import DiceScript.Proofs.Token.Places

/-!
Reading is total and safe. Whatever the text, reading it ends, its cursor goes forward from the
first token and never past the mark of the end, and all tokens have been read when it is done.
-/

namespace DiceScript

namespace Grammar

/-! ## Tokens of a text -/

/-- The tokens of a text in front of the mark of the end. -/
def scanned (text : String) : List Token := (Token.lex text.toList).1

/-- The mark of the end of a text. -/
def finishOf (text : String) : Token :=
  ⟨.finish, "", ⟨(Token.lex text.toList).2, (Token.lex text.toList).2⟩⟩

theorem lexed_eq (text : String) : Token.lexed text = scanned text ++ [finishOf text] := rfl

theorem length_lexed (text : String) :
    (Token.lexed text).length = (scanned text).length + 1 := by
  rw [lexed_eq, List.length_append, List.length_singleton]

theorem length_scanned_le (text : String) : (scanned text).length ≤ text.utf8ByteSize := by
  rw [Text.utf8ByteSize_eq_size]
  exact Nat.le_trans (Token.lex_scanned text.toList).length_le (Text.length_le_size text.toList)

end Grammar

/-- The script of a text, from the tokens that its characters tell. -/
def Script.ofText (text : String) : Script :=
  let tokens := Grammar.scanned text
  (ofTokensWithin? (tokens.length + 1) text.toList tokens).getD ⟨.empty, []⟩

namespace Grammar

open Reader

variable {read : Goal → Reader Expr} {s : Setting} {p q : Progress}

/-! ## Where statements end -/

theorem skipLength_ends (terminator : Option TokenKind) (depth : Nat) (ts : List Token) :
    ∀ token ∈ (ts.drop (skipLength terminator depth ts)).head?,
      endsStatement terminator token.kind = true := by
  induction ts generalizing depth with
  | nil => simp
  | cons token ts ih =>
    -- every branch but the first goes on behind the token, with another depth
    have hcons : ∀ n, (token :: ts).drop (1 + n) = ts.drop n := by
      intro n
      rw [Nat.add_comm, List.drop_succ_cons]
    unfold skipLength
    split
    · rename_i hends
      intro t ht
      cases ht
      exact (Bool.and_eq_true_iff.mp hends).2
    · split
      · rw [hcons]
        exact ih _
      · split
        · rw [hcons]
          exact ih _
        · rw [hcons]
          exact ih _

/-- A whole statement ends in front of the end, of a separator or of the closing token. -/
theorem wholeStatement_ends {terminator : Option TokenKind} {e : Expr}
    (h : outcome (wholeStatement read terminator) s p = some (e, q)) :
    q.cursor.kind = .finish ∨ endsStatement terminator q.cursor.kind = true := by
  -- what is skipped ends where a statement ends, or where all tokens end
  have hskip : ∀ (c : Cursor),
      (c.skip (skipLength terminator 0 c.rest)).kind = .finish ∨
        endsStatement terminator (c.skip (skipLength terminator 0 c.rest)).kind = true := by
    intro c
    rw [Cursor.kind_eq, Cursor.rest_skip]
    cases hhead : (c.rest.drop (skipLength terminator 0 c.rest)).head? with
    | none => exact .inl rfl
    | some token => exact .inr (skipLength_ends terminator 0 c.rest token hhead)
  rw [wholeStatement, outcome_bind] at h
  cases hstatement : outcome (statement read) s p with
  | none => simp [hstatement] at h
  | some result =>
    obtain ⟨e', t⟩ := result
    simp only [hstatement, Option.bind_some, outcome_bind, outcome_peek] at h
    split at h
    · rename_i hends
      cases h
      simpa using hends
    · split at h
      · cases h
        exact hskip t.cursor
      · cases h
        exact hskip t.cursor

/-- A last turn ends in front of the end or of the closing token. -/
theorem turn_last {terminator : Option TokenKind} {result next : Option Expr} {piped : Bool}
    (h : outcome (turn read terminator result piped) s p = some (.last next, q)) :
    q.cursor.kind = .finish ∨ some q.cursor.kind = terminator := by
  simp only [turn, outcome_bind, outcome_peek, Option.bind_some] at h
  split at h
  · rename_i hends
    cases h
    simpa using hends
  · split at h
    · cases h
    · rw [outcome_bind] at h
      cases hwhole : outcome (wholeStatement read terminator) s p with
      | none => simp [hwhole] at h
      | some result =>
        obtain ⟨e, t⟩ := result
        have hends := wholeStatement_ends hwhole
        simp only [hwhole, Option.bind_some, outcome_bind, outcome_peek] at h
        split at h
        -- neither a semicolon nor a bar follows, so of the ends of a statement only two are left
        · cases h
        · cases h
        · cases h
          simp_all [endsStatement]

theorem statementsFrom_ends {terminator : Option TokenKind} (n : Nat) {result next : Option Expr}
    {piped : Bool}
    (h : outcome (statementsFrom read terminator n result piped) s p = some (next, q)) :
    q.cursor.kind = .finish ∨ some q.cursor.kind = terminator := by
  induction n generalizing p result piped with
  | zero => cases h
  | succ n ih =>
    rw [statementsFrom, outcome_bind] at h
    cases hturn : outcome (turn read terminator result piped) s p with
    | none => simp [hturn] at h
    | some outcome =>
      obtain ⟨next | ⟨next, nextPiped⟩, t⟩ := outcome
      · rw [hturn] at h
        cases h
        exact turn_last hturn
      · rw [hturn] at h
        exact ih h

theorem sequence_ends {terminator : Option TokenKind} {e : Expr}
    (h : outcome (sequence read terminator) s p = some (e, q)) :
    q.cursor.kind = .finish ∨ some q.cursor.kind = terminator := by
  simp only [sequence, outcome_bind, outcome_remaining, Option.bind_some] at h
  cases hstatements : outcome (statementsFrom read terminator (p.remaining + 1) none false) s p with
  | none => simp [hstatements] at h
  | some result =>
    rw [hstatements] at h
    cases h
    exact statementsFrom_ends _ hstatements

/-! ## Parts of the grammar -/

/-- The readers that the grammar is made of. -/
inductive Part (read : Goal → Reader Expr) : {α : Type} → Reader α → Prop
  | advance : Part read advance
  | consumeIf (kind : TokenKind) : Part read (consumeIf kind)
  | expect (kind : TokenKind) (place : Place) : Part read (Attempt.expect kind place).run
  | items (closing : TokenKind) (m : Mistake) : Part read (items read closing m).run
  | arguments : Part read (arguments read).run
  | block (place : Place) : Part read (block read place).run
  | functionBody (params : List String) : Part read (functionBody params).run
  | functionAfter (g : Cursor.Group) : Part read (functionAfter g).run
  | parenthesized : Part read (parenthesized read).run
  | namedCall (name : String) : Part read (namedCall read name).run
  | event : Part read (event read).run
  | leafAt (cursor : Cursor) (token : Token) : Part read (leafAt read cursor token)
  | leaf : Part read (leaf read)
  | indexOf (container : Expr) : Part read (indexOf read container).run
  | memberOf (target : Expr) : Part read (memberOf read target).run
  | suffix? (e : Expr) : Part read (suffix? read e).run
  | suffixed : Part read (suffixed read)
  | bareWord? : Part read bareWord?
  | bonusArgument : Part read (bonusArgument read)
  | bonusDetails : Part read (bonusDetails read).run
  | bonus : Part read (bonus read).run
  | unary : Part read (unary read)
  | pair : Part read (pair read)
  | product : Part read (product read)
  | sum : Part read (sum read)
  | arrayOperation : Part read (arrayOperation read)
  | relation : Part read (relation read)
  | equality : Part read (equality read)
  | askedType : Part read (askedType read)
  | bonusOfStat : Part read (bonusOfStat read)
  | conjunction : Part read (conjunction read)
  | disjunction : Part read (disjunction read)
  | choice : Part read (choice read).run
  | ternary (test : Expr) : Part read (ternary read test).run
  | conditional : Part read (conditional read)
  | loop : Part read (loop read).run
  | statement : Part read (statement read)
  | wholeStatement (terminator : Option TokenKind) : Part read (wholeStatement read terminator)
  | turn (terminator : Option TokenKind) (result : Option Expr) (piped : Bool) :
    Part read (turn read terminator result piped)
  | sequence (terminator : Option TokenKind) : Part read (sequence read terminator)

theorem Part.agreeAt {α : Type} {x : Reader α} {r : Nat} (hx : Part read x)
    (h : ∀ goal, Alike r (read goal) (read goal)) (hp : p.remaining < r) : AgreeAt x x s p := by
  -- parts that begin with a token of their own need one construct less for what follows it
  have hp' : p.remaining < r + 1 := by omega
  have hnext : p.advanced.remaining < r :=
    Nat.lt_of_le_of_lt (Cursor.ahead_advance p.cursor).length_le hp
  cases hx with
  | advance => exact .advance
  | consumeIf kind => exact .consumeIf kind
  | expect kind place => exact .expect kind place
  | items closing m => exact items_alike h closing m s p hp
  | arguments => exact arguments_alike h s p hp'
  | block place => exact block_alike h place s p hp'
  | functionBody params => exact functionBody_alike params r s p hp
  | functionAfter g => exact functionAfter_alike g r s p hp
  | parenthesized => exact parenthesized_alike h hnext
  | namedCall name => exact namedCall_alike h name s p hp'
  | event => exact event_alike h s p hp
  | leafAt cursor token => exact leafAt_alike h cursor token hp' hnext
  | leaf => exact leaf_alike h s p hp'
  | indexOf container => exact indexOf_alike h container s p hp
  | memberOf target => exact memberOf_alike h target s p hp'
  | suffix? e => exact suffix?_alike h e s p hp'
  | suffixed => exact suffixed_alike h s p hp'
  | bareWord? => exact bareWord?_alike r s p hp
  | bonusArgument => exact bonusArgument_alike h s p hp
  | bonusDetails => exact bonusDetails_alike h s p hp
  | bonus => exact bonus_alike h s p hp'
  | unary => exact unary_alike h s p hp'
  | pair => exact pair_alike h s p hp'
  | product => exact product_alike h s p hp'
  | sum => exact sum_alike h s p hp'
  | arrayOperation => exact arrayOperation_alike h s p hp'
  | relation => exact relation_alike h s p hp'
  | equality => exact equality_alike h s p hp'
  | askedType => exact askedType_alike h s p hp'
  | bonusOfStat => exact bonusOfStat_alike h s p hp'
  | conjunction => exact conjunction_alike h s p hp'
  | disjunction => exact disjunction_alike h s p hp'
  | choice => exact choice_alike h hnext
  | ternary test => exact ternary_alike h test s p hp
  | conditional => exact conditional_alike h s p hp'
  | loop => exact loop_alike h hnext
  | statement => exact statement_alike h s p hp'
  | wholeStatement terminator => exact wholeStatement_alike h terminator s p hp'
  | turn terminator result piped => exact turn_alike h terminator result piped s p hp'
  | sequence terminator => exact sequence_alike h terminator s p hp'

/-- From every cursor in the tokens a reader comes to an outcome, whose cursor is in the tokens and
not in front of where it was. -/
def StaysIn {α : Type} (tokens : List Token) (x : Reader α) : Prop :=
  ∀ s p, p.cursor.Within tokens →
    ∃ a q, outcome x s p = some (a, q) ∧ q.cursor.Within tokens ∧
      p.cursor.position ≤ q.cursor.position

theorem Part.staysIn {α : Type} {x : Reader α} {tokens : List Token} {n : Nat}
    (hx : Part (readWithin n) x) (hn : tokens.length < n) : StaysIn tokens x := by
  intro s p hp
  have hlt : p.remaining < n := Nat.lt_of_le_of_lt hp.remaining_le hn
  obtain ⟨a, q, hq, -, hahead⟩ :=
    hx.agreeAt (s := s) (readWithin_alike (Nat.le_refl n) (Nat.le_refl n)) hlt
  exact ⟨a, q, hq, hp.ahead hahead, hahead.position_le⟩

/-! ## What is read around a cursor -/

/-- The group at a cursor lies among the tokens of a text, and so does the place behind it. The body
between its brackets lies in the text. -/
structure GroupInBounds (text : String) (c : Cursor) (g : Cursor.Group) : Prop where
  order : c.position < g.closingIndex c ∧ g.closingIndex c + 1 < (Token.lexed text).length
  opening : (Token.lexed text)[c.position]? = some g.opening
  closing : (Token.lexed text)[g.closingIndex c]? = some g.closing
  inside : ((Token.lexed text).take (g.closingIndex c)).drop (c.position + 1) = g.inside
  behind : (c.skip (g.inside.length + 2)).position = g.closingIndex c + 1
  behindArrow : g.followedBy .arrow = true →
    (c.skip (g.inside.length + 3)).position = g.closingIndex c + 2 ∧
      g.closingIndex c + 2 < (Token.lexed text).length
  body : ∃ front middle back, text.toList = front ++ middle ++ back ∧
    g.opening.span.last.offset.toNat = Text.size front ∧
    g.closing.span.first.offset.toNat = Text.size (front ++ middle) ∧
    Text.slice text.toList g.opening.span.last.offset.toNat g.closing.span.first.offset.toNat =
      middle

/-- What is read at a cursor lies among the tokens of a text. -/
structure InBounds (text : String) (c : Cursor) : Prop where
  position_lt : c.position < (Token.lexed text).length
  next : ∃ token, (Token.lexed text)[c.position]? = some token ∧ token.kind = c.kind
  advance : c.advance.position = if c.kind = .finish then c.position else c.position + 1
  window : Cursor.windowFirst c.position ≤
      Cursor.windowLast c.position (Token.lexed text).length ∧
    Cursor.windowLast c.position (Token.lexed text).length ≤ (Token.lexed text).length ∧
    c.window = Cursor.shownBetween (Token.lexed text) (Cursor.windowFirst c.position)
      (Cursor.windowLast c.position (Token.lexed text).length)
  group : ∀ g, Cursor.groupAt? c.rest = some g → GroupInBounds text c g

variable {text : String} {c : Cursor}

theorem groupInBounds (hsmall : text.utf8ByteSize < 2 ^ 32) (h : c.Within (scanned text))
    {g : Cursor.Group} (hg : Cursor.groupAt? c.rest = some g) : GroupInBounds text c g := by
  have hrest := Cursor.groupAt?_parts hg
  have hlength := Cursor.Group.length_le h hg
  have hall := h.length_eq
  have hindex : g.closingIndex c = c.position + g.inside.length + 1 := rfl
  have hskip : ∀ n ≤ c.rest.length, (c.skip n).position = c.position + n :=
    fun n hn => h.position_skip hn
  -- the tokens from the cursor on are the group and what stands after it
  have hopening : (scanned text)[c.position]? = some g.opening := by
    rw [← Nat.add_zero c.position, ← List.getElem?_drop, h.drop_position, hrest]
    rfl
  have hclosing := Cursor.Group.closing_eq h hg
  refine ⟨⟨by omega, ?_⟩, ?_, ?_, ?_, ?_, ?_, ?_⟩
  · rw [length_lexed]
    omega
  · rw [lexed_eq, List.getElem?_append_left (by omega), hopening]
  · rw [lexed_eq, List.getElem?_append_left (by omega), hclosing]
  · rw [lexed_eq, List.take_append_of_le_length (by omega), Cursor.Group.slice_eq h hg]
  · rw [hskip _ (by omega)]
    omega
  · intro harrow
    obtain ⟨t, after, hafter, -⟩ := Cursor.Group.followedBy_iff.1 harrow
    rw [hafter, List.length_cons] at hlength
    rw [hskip _ (by omega), length_lexed]
    omega
  -- the text between the two brackets, which a function takes for its body
  · have htokens : scanned text =
        c.before.reverse ++ g.opening :: (g.inside ++ g.closing :: g.after) := by
      rw [← hrest]
      exact h.symm
    obtain ⟨front, middle, back, htext, hlast, hfirst⟩ :=
      (Token.lex_scanned text.toList).between htokens
    rw [Text.utf8ByteSize_eq_size, htext, Text.size_append, Text.size_append] at hsmall
    have hfront : g.opening.span.last.offset.toNat = Text.size front := by
      rw [hlast, Position.toNat_offset (by omega)]
    have hmiddle : g.closing.span.first.offset.toNat = Text.size (front ++ middle) := by
      rw [hfirst, Position.toNat_offset (by rw [Text.size_append]; omega)]
    refine ⟨front, middle, back, htext, hfront, hmiddle, ?_⟩
    rw [hfront, hmiddle, htext, Text.slice_append]

theorem inBounds (hsmall : text.utf8ByteSize < 2 ^ 32) (h : c.Within (scanned text)) :
    InBounds text c := by
  have hall := h.length_eq
  have hfinish := (Token.lex_scanned text.toList).kind_ne_finish
  refine ⟨?_, ?_, ?_, ⟨?_, ?_, ?_⟩, fun g hg => groupInBounds hsmall h hg⟩
  · rw [length_lexed]
    omega
  · rw [lexed_eq]
    exact h.next_token rfl
  · split
    · rename_i hkind
      have hnil := h.rest_eq_nil hfinish hkind
      simp [Cursor.advance, hnil]
    · rename_i hkind
      have hne : c.rest ≠ [] := fun hnil => hkind (by simp [Cursor.kind, Cursor.kindAt, hnil])
      -- there is a token ahead, since the mark of the end is the only one of its kind
      exact h.position_skip (n := 1) (List.length_pos_iff.mpr hne)
  · rw [length_lexed, Cursor.windowFirst, Cursor.windowLast]
    omega
  · exact Nat.min_le_right _ _
  · rw [length_lexed, lexed_eq]
    exact h.window_eq rfl

/-! ## Whole texts -/

/-- At the end of reading tokens none of which marks the end, no token is ahead. -/
theorem reading_ends {tokens : List Token} (hfinish : ∀ t ∈ tokens, t.kind ≠ .finish)
    (cs : List Char) :
    ∃ root q, outcome (readWithin (tokens.length + 1) (.sequence none)) ⟨cs, true⟩
        ⟨.ofTokens tokens, []⟩ = some (root, q) ∧
      Script.ofTokensWithin? (tokens.length + 1) cs tokens = some ⟨root, q.mistakes⟩ ∧
      q.cursor.Within tokens ∧ q.cursor.rest = [] := by
  obtain ⟨root, q, hq, -, hahead⟩ :=
    readWithin_alike (Nat.le_refl _) (Nat.le_refl _) (.sequence none) ⟨cs, true⟩
      ⟨.ofTokens tokens, []⟩ (Nat.lt_succ_self tokens.length)
  have hscript : Script.ofTokensWithin? (tokens.length + 1) cs tokens =
      some ⟨root, q.mistakes⟩ := by
    rw [Script.ofTokensWithin?_eq, hq]
    rfl
  have hwithin := (Cursor.within_ofTokens tokens).ahead hahead
  -- without a closing token only the end can end a sequence
  have hends : q.cursor.kind = .finish := by
    rcases sequence_ends hq with hkind | hkind
    · exact hkind
    · cases hkind
  exact ⟨root, q, hq, hscript, hwithin, hwithin.rest_eq_nil hfinish hends⟩

theorem scanned_kind_ne_finish (text : String) : ∀ t ∈ scanned text, t.kind ≠ .finish :=
  (Token.lex_scanned text.toList).kind_ne_finish

theorem reading_ends_at_the_end (text : String) :
    ∃ root q, outcome (readWithin ((scanned text).length + 1) (.sequence none))
        ⟨text.toList, true⟩ ⟨.ofTokens (scanned text), []⟩ = some (root, q) ∧
      Script.ofText text = ⟨root, q.mistakes⟩ ∧ q.cursor.Within (scanned text) ∧
      q.cursor.rest = [] := by
  obtain ⟨root, q, hq, hscript, hrest⟩ :=
    reading_ends (scanned_kind_ne_finish text) text.toList
  refine ⟨root, q, hq, ?_, hrest⟩
  show (Script.ofTokensWithin? _ text.toList (scanned text)).getD _ = _
  rw [hscript]
  rfl

theorem more_nesting_changes_nothing {n : Nat} (hn : (scanned text).length < n) :
    Script.ofTokensWithin? n text.toList (scanned text) = some (Script.ofText text) := by
  obtain ⟨root, q, hq, hparse, -⟩ := reading_ends_at_the_end text
  obtain ⟨root', q', hsame, hq', -⟩ :=
    readWithin_alike (Nat.le_refl _) hn (.sequence none) ⟨text.toList, true⟩
      ⟨.ofTokens (scanned text), []⟩ (Nat.lt_succ_self (scanned text).length)
  rw [hq] at hsame
  cases hsame
  rw [Script.ofTokensWithin?_eq, hq', hparse]
  rfl

theorem turn_again_moves_on {tokens : List Token} {n : Nat} (hn : tokens.length < n)
    {terminator : Option TokenKind} {result next : Option Expr} {piped nextPiped : Bool}
    (hp : p.cursor.Within tokens)
    (hq : outcome (turn (readWithin n) terminator result piped) s p =
      some (.again next nextPiped, q)) : p.cursor.position < q.cursor.position := by
  have hlt : p.remaining < n := Nat.lt_of_le_of_lt hp.remaining_le hn
  have hread := fun goal => readWithin_alike (Nat.le_refl n) (Nat.le_refl n) goal
  have hfewer : q.cursor.rest.length < p.cursor.rest.length :=
    turn_again hread (Nat.lt_succ_of_lt hlt) hq
  -- fewer tokens ahead and all of them still there: the position has grown
  obtain ⟨a, t, ht, hwithin, -⟩ := (Part.turn terminator result piped).staysIn hn s p hp
  rw [hq] at ht
  cases ht
  have hbefore := hp.length_eq
  have hafter := hwithin.length_eq
  omega

theorem counting_finds_the_group (h : c.Within (scanned text))
    (hcount : (scanned text).length < 2 ^ 32) {closing : TokenKind}
    (hclosing : c.kind.closing? = some closing) :
    Cursor.countToClosing c.kind closing 0 ((Token.lexed text).drop c.position) =
      some ((Cursor.groupAt? c.rest).map fun g => g.inside.length + 1) := by
  have hlength := h.length_eq
  rw [lexed_eq, List.drop_append_of_le_length (by omega), h.drop_position]
  refine Cursor.countToClosing_eq_group ?_ hclosing rfl (by omega)
  rw [Cursor.kind_eq] at hclosing ⊢
  -- at the end there is no bracket to close
  cases hhead : c.rest.head? with
  | none =>
    rw [hhead] at hclosing
    cases hclosing
  | some token => rfl

end Grammar

end DiceScript
