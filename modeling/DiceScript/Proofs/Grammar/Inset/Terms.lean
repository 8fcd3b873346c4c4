import DiceScript.Proofs.Grammar.Inset.Mirror

/-!
Terms read inside a larger text as they read alone, if no mistake is found there. A rule looks ahead
in three ways: at the kinds of the next two tokens, at what follows a parenthesis, and at whether
any token is left. None of them tells a semicolon from the end, and what follows a parenthesis that
is looked past is the same by the way the text stands in the larger one.
-/

namespace DiceScript

open Reader Attempt Grammar

namespace Inset

variable {i : Inset} {read : Goal → Reader Expr} {pre guard : Progress → Prop}

/-- The expression is no mistake. -/
def Completed (e : Expr) : Prop := e.isError = false

/-- The expression is no mistake, and its last token has just been passed. -/
def Ended (e : Expr) (q : Progress) : Prop := Completed e ∧ q.cursor.EndsOperand

/-- What the tokens in front tell is that the construct may begin. -/
def Begins : Goal → Progress → Prop
  | .sequence _, p | .statement, p | .conditional, p => p.cursor.BeginsConditional
  | .disjunction, p | .pair, p | .unary, p => p.cursor.BeginsOperand

/-- A sequence has come to the token that closes it. Other constructs may end at the end. -/
def Inside : Goal → Progress → Prop
  | .sequence _, q => q.cursor.rest ≠ []
  | _, _ => True

/-- The construct is no mistake. There may be nothing in a sequence. -/
def Read : Goal → Expr → Progress → Prop
  | .sequence _, e, _ => Completed e
  | _, e, q => Ended e q

variable (i) in
/-- The grammar reads inside a larger text as it reads the text alone. -/
def ReadsAlike (read : Goal → Reader Expr) : Prop :=
  ∀ goal, i.Mirrors (Begins goal) (Inside goal) (Read goal) (read goal) (read goal)

theorem ReadsAlike.goal (h : i.ReadsAlike read) {goal : Goal}
    (hgoal : ∀ terminator, goal ≠ .sequence terminator) (hpre : ∀ p, pre p → Begins goal p) :
    i.Mirrors pre guard Ended (read goal) (read goal) := by
  refine (h goal).mono hpre (fun q _ => ?_) fun e q _ he => ?_
  · cases goal <;> first | trivial | exact absurd rfl (hgoal _)
  · cases goal <;> first | exact he | exact absurd rfl (hgoal _)

/-! ## Lists and blocks -/

theorem itemsFrom_mirrors (h : i.ReadsAlike read) {closing : TokenKind} (hclosing : Telling closing)
    (m : Mistake) (n n' : Nat) (hn : n ≤ n') :
    i.MirrorsTry (fun p => p.cursor.BeginsConditional) guard (fun _ q => q.cursor.Behind closing)
      (itemsFrom read closing m n) (itemsFrom read closing m n') := by
  induction n generalizing n' guard with
  | zero => exact ⟨nofun, nofun⟩
  | succ n ih =>
    obtain ⟨n', rfl⟩ : ∃ k, n' = k + 1 := ⟨n' - 1, by omega⟩
    simp only [itemsFrom]
    refine .lift_bind (.withPairs (h.goal nofun fun _ hp => hp)) fun item => ?_
    refine .lift_peek_bind (fun kind => ?_) ?_
    · by_cases hcomma : kind = .comma
      · simp only [if_pos hcomma]
        refine .lift_advance_bind (fun p hp => hp.2.trans hcomma) (by decide) ?_
        refine .bind ((ih n' (by omega)).of_pre fun q hq => ?_) fun _ => .pure fun _ hq _ => hq
        exact hq.begins rfl
      · by_cases hkind : kind = closing
        · simp only [if_neg hcomma, if_pos hkind]
          refine .lift_advance_bind (fun p hp => hp.2.trans hkind) ⟨hclosing.1, hclosing.2.2⟩ ?_
          exact .pure fun _ hq _ => hq.behind hclosing.1
        · simp only [if_neg hcomma, if_neg hkind]
          exact .fail _
    · simp only [reduceCtorEq, if_false, if_neg hclosing.1.symm]
      exact .fail _

theorem items_mirrors (h : i.ReadsAlike read) {closing : TokenKind} (hclosing : Telling closing)
    (m : Mistake) :
    i.MirrorsTry (fun p => p.cursor.BeginsConditional) guard (fun _ q => q.cursor.Behind closing)
      (items read closing m) (items read closing m) := by
  refine .lift_bind (.consumeIf hclosing) fun empty => ?_
  cases empty with
  | true => exact .pure fun _ hq _ => hq.behind hclosing.1
  | false =>
    refine .lift_remaining_bind fun n n' hn => ?_
    exact itemsFrom_mirrors h hclosing m _ _ (Nat.succ_le_succ hn)

theorem arguments_mirrors (h : i.ReadsAlike read) :
    i.MirrorsTry pre guard (fun _ q => q.cursor.Behind .closeParen) (arguments read)
      (arguments read) := by
  refine .bind (.expect _ (by decide)) fun _ => ?_
  exact (items_mirrors h (by decide) _).of_pre fun q hq => hq.begins rfl

/-- Statements up to a closing token, and that token: where it is found, they have not come to the
end. -/
theorem enclosed_mirrors (h : i.ReadsAlike read) {closing : TokenKind} (hclosing : Telling closing)
    (hends : Cursor.closesOperand closing = true) (place : Place) :
    i.MirrorsTry (fun p => p.cursor.BeginsConditional) guard Ended
      (do
        let body ← withPairs (read (.sequence (some closing)))
        expect closing place
        return body)
      (do
        let body ← withPairs (read (.sequence (some closing)))
        expect closing place
        return body) := by
  refine .lift_bind_of (h (.sequence (some closing))).withPairs ?_ fun body => ?_
  · intro body s q r t hx hclean _
    rw [Attempt.outcome_bind, Attempt.outcome_expect] at hx
    split at hx
    · rename_i hkind
      exact Cursor.rest_ne_nil_of_kind hkind hclosing.1
    · cases hx
      simp [Clean] at hclean
  · refine .bind (.expect place hclosing) fun _ => .pure fun q hq _ => ?_
    obtain ⟨p, hbody, -⟩ := id hq
    exact ⟨hbody, hq.ends hends⟩

/-- Behind an arrow the curly bracket would begin the body of a function. -/
theorem block_mirrors (h : i.ReadsAlike read) (place : Place)
    (hpre : ∀ p, pre p → ¬ p.cursor.Behind .arrow) :
    i.MirrorsTry pre guard Ended (block read place) (block read place) := by
  refine .bind (.expect_of _ (by decide) (.inr hpre)) fun _ => ?_
  refine (enclosed_mirrors h (by decide) rfl _).of_pre fun q hq => ?_
  exact hq.begins rfl

/-! ## Functions -/

theorem parameters?_move (nameNext : Bool) (ts : List Token) :
    Cursor.parameters? nameNext (ts.map i.move) = Cursor.parameters? nameNext ts := by
  induction ts generalizing nameNext with
  | nil => rfl
  | cons t ts ih => simp only [List.map_cons, Cursor.parameters?, i.move_kind, i.move_text, ih]

/-- Among parameters there is no curly bracket. -/
theorem kind_of_parameters? {nameNext : Bool} {ts : List Token} {found : List String × Bool}
    (h : Cursor.parameters? nameNext ts = some found) : ∀ t ∈ ts, t.kind ≠ .openCurly := by
  induction ts generalizing nameNext found with
  | nil => nofun
  | cons t ts ih =>
    rw [Cursor.parameters?] at h
    split at h
    · rename_i hname
      obtain ⟨later, hlater, -⟩ := Option.map_eq_some_iff.1 h
      have hkind : t.kind = .identifier := by simpa using (Bool.and_eq_true_iff.1 hname).1
      exact List.forall_mem_cons.2 ⟨by rw [hkind]; decide, ih hlater⟩
    · split at h
      · rename_i hcomma
        have hkind : t.kind = .comma := by simpa using (Bool.and_eq_true_iff.1 hcomma).1
        exact List.forall_mem_cons.2 ⟨by rw [hkind]; decide, ih h⟩
      · cases h

theorem functionBody_mirrors (params : List String) (hpre : ∀ p, pre p → p.cursor.Behind .arrow) :
    i.MirrorsTry pre guard Ended (functionBody params) (functionBody params) := by
  refine .lift_here_bind fun c c' hbeside => ?_
  by_cases hkind : c.kind = .openCurly
  · have hkind' := (hbeside.kind_eq_iff (by decide) (by decide)).2 hkind
    simp only [hkind, hkind', ne_eq, not_true_eq_false, if_false]
    cases hgroup : Cursor.groupAt? c.rest with
    | none => exact .failAt _ _
    | some g =>
      have hrest := Cursor.groupAt?_parts hgroup
      have hlength := congrArg List.length hrest
      simp only [List.length_cons, List.length_append] at hlength
      have hopening : g.opening.kind = .openCurly :=
        (Cursor.kind_of_groupAt? hgroup).symm.trans hkind
      have hclosing : g.closing.kind = .closeCurly :=
        Cursor.kind_of_closing? hgroup (by rw [hopening]; rfl)
      have hends : (c.skip (g.inside.length + 2)).EndsOperand := by
        have hbehind := Cursor.behind_skip (g.opening :: g.inside) hrest
        exact hbehind.endsOperand (by rw [hclosing]; rfl)
      have hmoved : ∀ body : String, i.MirrorsTry (fun p => pre p ∧ p.cursor = c) guard Ended
          (do moveTo (c.skip (g.inside.length + 2)); return .function params body)
          (do moveTo (c'.skip (g.inside.length + 2)); return .function params body) := by
        intro body
        refine .lift_bind (.moveTo Cursor.EndsOperand fun p harrived hp => ?_) fun _ =>
          .pure fun _ hq _ => ⟨rfl, hq⟩
        rw [hp.2] at harrived
        exact ⟨Cursor.body_outside harrived (hp.2 ▸ hpre p hp.1) hgroup hopening,
          hbeside.skip (by omega), hends⟩
      rw [hbeside.rest, groupAt?_move hgroup]
      refine .lift_setting_bind fun pairs => Mirrors.congr_right (hmoved _) fun p harrived hp => ?_
      -- the body is the text between the brackets of the group
      have htokens := harrived.parts
      rw [hp.2, hrest] at htokens
      simp only [movedGroup, i.between htokens, List.length_map]
  · simp only [ne_eq, hkind, not_false_eq_true, if_true]
    exact .fail _

theorem functionAfter_mirrors {g : Cursor.Group} (hg : g.followedBy .arrow = true)
    (hpre : ∀ p, pre p →
      p.cursor.kind = .openParen ∧ Cursor.groupAt? p.cursor.rest = some g) :
    i.MirrorsTry pre guard Ended (functionAfter g) (functionAfter (i.movedGroup g)) := by
  refine .lift_here_bind fun c c' hbeside => ?_
  simp only [movedGroup, parameters?_move, List.length_map]
  cases hparams : Cursor.parameters? true g.inside with
  | none => exact .failAt _ _
  | some found =>
    obtain ⟨params, dangling⟩ := found
    by_cases hdangling : (dangling && !params.isEmpty) = true
    · simp only [if_pos hdangling]
      exact .failAt _ _
    · simp only [if_neg hdangling]
      refine .lift_bind (.moveTo (Cursor.Behind · .arrow) fun p harrived hp => ?_) fun _ =>
        functionBody_mirrors params fun _ hq => hq
      obtain ⟨hkind, hgroup⟩ := hpre p hp.1
      rw [hp.2] at harrived hkind hgroup
      obtain ⟨harrow, hle, hpassed⟩ := Cursor.behind_head hgroup hg
      exact ⟨hpassed harrived hkind (kind_of_parameters? hparams), hbeside.skip hle, harrow⟩

variable (read) in
/-- What is read where a parenthesis begins: a function with the parameters of a group, if there is
one in front of an arrow, and otherwise statements. -/
def parenthesizedAt : Option Cursor.Group → Attempt Expr
  | some g => functionAfter g
  | none => do
    advance
    let inner ← withPairs (read (.sequence (some .closeParen)))
    expect .closeParen .parenthesisEnd
    return inner

theorem parenthesized_mirrors (h : i.ReadsAlike read)
    (hpre : ∀ p, pre p → p.cursor.BeginsOperand ∧ p.cursor.kind = .openParen) :
    i.MirrorsTry pre guard Ended (parenthesized read) (parenthesized read) := by
  refine .lift_here_bind fun c c' hbeside => ?_
  have hown : i.MirrorsTry (fun p => pre p ∧ p.cursor = c) guard Ended
      (parenthesizedAt read ((Cursor.groupAt? c.rest).filter (·.followedBy .arrow)))
      (parenthesizedAt read
        (((Cursor.groupAt? c.rest).filter (·.followedBy .arrow)).map i.movedGroup)) := by
    cases hgroup : (Cursor.groupAt? c.rest).filter (·.followedBy .arrow) with
    | some g =>
      obtain ⟨hg, harrow⟩ := Option.filter_eq_some_iff.1 hgroup
      exact functionAfter_mirrors harrow fun p hp => ⟨(hpre p hp.1).2, by rw [hp.2, hg]⟩
    | none =>
      refine .lift_advance_bind (fun p hp => (hpre p hp.1).2) (by decide) ?_
      refine (enclosed_mirrors h (by decide) rfl _).of_pre fun q hq => ?_
      exact hq.begins rfl
  refine Mirrors.congr_right hown fun p harrived hp => ?_
  obtain ⟨hbegins, hkind⟩ := hpre p hp.1
  rw [hp.2] at harrived hbegins hkind
  rw [← hbeside.filter_groupAt? harrived (by decide) (hbegins.looksPast hkind)]
  rfl

/-! ## Leaves and suffixes -/

theorem namedCall_mirrors (h : i.ReadsAlike read) (name : String) :
    i.MirrorsTry pre guard Ended (namedCall read name) (namedCall read name) :=
  .bind (arguments_mirrors h) fun _ => .pure fun _ hq _ => ⟨rfl, hq.endsOperand rfl⟩

theorem event_mirrors (h : i.ReadsAlike read) (hpre : ∀ p, pre p → p.cursor.BeginsConditional) :
    i.MirrorsTry pre guard Ended (event read) (event read) := by
  refine .lift_bind (.withPairs (h.goal nofun hpre)) fun argument => ?_
  refine .bind (.expect _ (by decide)) fun _ => .pure fun q hq _ => ⟨rfl, ?_⟩
  obtain ⟨p, hended, hkind, hcursor⟩ := hq
  rw [hcursor]
  exact hended.2.quote hkind

theorem leafAt_mirrors (h : i.ReadsAlike read) (c c' : Cursor) (token : Token)
    (hpre : ∀ p, pre p → p.cursor.BeginsOperand ∧ p.cursor.kind = token.kind) :
    i.Mirrors pre guard Ended (leafAt read c token) (leafAt read c' (i.move token)) := by
  have hnext : ∀ {kind : TokenKind}, token.kind = kind → ∀ p, pre p → p.cursor.kind = kind :=
    fun hkind p hp => (hpre p hp).2.trans hkind
  unfold leafAt
  rw [i.move_kind, i.move_text]
  split
  · rename_i hkind
    refine .advance_bind (hnext hkind) (by decide) ?_
    cases Integer.read? token.text.toList with
    | some n => exact .pure fun _ hq _ => ⟨rfl, hq.ends rfl⟩
    | none => exact .mistakeAt _ _
  · rename_i hkind
    exact .advance_bind (hnext hkind) (by decide) (.pure fun _ hq _ => ⟨rfl, hq.ends rfl⟩)
  · rename_i hkind
    exact .advance_bind (hnext hkind) (by decide) (.pure fun _ hq _ => ⟨rfl, hq.ends rfl⟩)
  · rename_i hkind
    refine .advance_bind (hnext hkind) (by decide) ?_
    cases DiceSpec.read token.text with
    | ok spec => exact .pure fun _ hq _ => ⟨rfl, hq.ends rfl⟩
    | error failure => cases failure <;> exact .mistakeAt _ _
  · rename_i hkind
    refine .advance_bind (hnext hkind) (by decide) (.peek_bind (fun kind => ?_) ?_)
    · split
      · exact .settle (namedCall_mirrors h _)
      · exact .pure fun _ hq _ => ⟨rfl, hq.1.ends rfl⟩
    · simp only [reduceCtorEq, if_false]
      exact .pure fun _ hq _ => ⟨rfl, hq.1.ends rfl⟩
  · rename_i hkind
    exact .advance_bind (hnext hkind) (by decide) (.settle (namedCall_mirrors h _))
  · rename_i hkind
    exact .settle (parenthesized_mirrors h fun p hp => ⟨(hpre p hp).1, hnext hkind p hp⟩)
  · rename_i hkind
    refine .advance_bind (hnext hkind) (by decide) (.settle ?_)
    exact functionBody_mirrors _ fun _ hq => hq.behind (by decide)
  · exact .settle (block_mirrors h _ fun p hp => (hpre p hp).1.not_arrow)
  · rename_i hkind
    refine .advance_bind (hnext hkind) (by decide) (.settle ?_)
    exact .bind ((items_mirrors h (by decide) _).of_pre fun _ hq => hq.begins rfl) fun _ =>
      .pure fun _ hq _ => ⟨rfl, hq.endsOperand rfl⟩
  · rename_i hkind
    exact .advance_bind (hnext hkind) (by decide) (.pure fun _ hq _ => ⟨rfl, hq.ends rfl⟩)
  · rename_i hkind
    refine .advance_bind (hnext hkind) (by decide) (.settle ?_)
    exact event_mirrors h fun _ hq => hq.begins rfl
  · exact .advance_mistakeAt _ _
  · exact .mistakeAt _ _

theorem kind_of_rest {c : Cursor} {token : Token} {rest : List Token}
    (hrest : c.rest = token :: rest) : c.kind = token.kind := by
  rw [Cursor.kind_eq, hrest]
  rfl

theorem leaf_mirrors (h : i.ReadsAlike read) (hpre : ∀ p, pre p → p.cursor.BeginsOperand) :
    i.Mirrors pre guard Ended (leaf read) (leaf read) := by
  refine .here_bind fun c c' hbeside => ?_
  cases hrest : c.rest with
  | nil => exact .mistakeAt _ _
  | cons token rest =>
    rw [hbeside.rest_cons hrest]
    refine leafAt_mirrors h c c' token fun p hp => ⟨hpre p hp.1, ?_⟩
    rw [hp.2, kind_of_rest hrest]

theorem indexOf_mirrors (h : i.ReadsAlike read) (container : Expr)
    (hpre : ∀ p, pre p → p.cursor.BeginsConditional) :
    i.MirrorsTry pre guard Ended (indexOf read container) (indexOf read container) := by
  refine .lift_here_bind fun c c' hbeside => ?_
  -- what follows the index is the same in both branches
  have hclose : ∀ {pre : Progress → Prop} (index : Expr), i.MirrorsTry pre guard Ended
      (do expect .closeSquare .indexEnd; return .index container index)
      (do expect .closeSquare .indexEnd; return .index container index) := fun index =>
    .bind (.expect _ (by decide)) fun _ => .pure fun _ hq _ => ⟨rfl, hq.ends rfl⟩
  have hread : ∀ {guard : Progress → Prop}, i.Mirrors (fun p => pre p ∧ p.cursor = c) guard Ended
      (withPairs (read .conditional)) (withPairs (read .conditional)) :=
    .withPairs (h.goal nofun fun p hp => hpre p hp.1)
  have hpound : c'.kind = .pound ↔ c.kind = .pound :=
    hbeside.kind_eq_iff (by decide) (by decide)
  have htilde : c'.kind = .tilde ↔ c.kind = .tilde :=
    hbeside.kind_eq_iff (by decide) (by decide)
  by_cases hmark : c.kind = .pound ∨ c.kind = .tilde
  · have hfinish : c.kind ≠ .finish ∧ c.kind ≠ .openCurly := by
      rcases hmark with hmark | hmark <;> rw [hmark] <;> decide
    have hrest : c.rest ≠ [] := Cursor.rest_ne_nil_of_kind rfl hfinish.1
    have hsquare : c'.kindAt 1 = .closeSquare ↔ c.kindAt 1 = .closeSquare :=
      hbeside.kindAt_eq_iff (List.length_pos_iff.2 hrest) (by decide) (by decide)
    have hkind : c'.kind = c.kind := by
      rcases hmark with hmark | hmark
      · rw [hmark, hpound.2 hmark]
      · rw [hmark, htilde.2 hmark]
    simp only [hkind, hsquare]
    split
    · exact .lift_advance_bind (fun p hp => by rw [hp.2]) hfinish (hclose _)
    · exact .lift_bind hread fun index => hclose index
  · obtain ⟨hnotPound, hnotTilde⟩ := not_or.1 hmark
    simp only [hpound, htilde, hnotPound, hnotTilde]
    exact .lift_bind hread fun index => hclose index

theorem memberOf_mirrors (h : i.ReadsAlike read) (target : Expr) :
    i.MirrorsTry pre guard Ended (memberOf read target) (memberOf read target) := by
  refine .lift_here_bind fun c c' hbeside => ?_
  cases hrest : c.rest with
  | nil => exact .fail _
  | cons token rest =>
    rw [hbeside.rest_cons hrest]
    simp only [i.move_kind, i.move_text]
    split
    · rename_i hkind
      refine .lift_advance_bind (fun p hp => ?_) (by decide : TokenKind.identifier ≠ .finish ∧ _)
        (.lift_peek_bind (fun kind => ?_) ?_)
      · rw [hp.2, kind_of_rest hrest, hkind]
      · split
        · exact .bind (arguments_mirrors h) fun _ => .pure fun _ hq _ => ⟨rfl, hq.endsOperand rfl⟩
        · exact .pure fun _ hq _ => ⟨rfl, hq.1.ends rfl⟩
      · simp only [reduceCtorEq, if_false]
        exact .pure fun _ hq _ => ⟨rfl, hq.1.ends rfl⟩
    · exact .fail _

/-- An expression and the suffix that follows it, or the expression alone. -/
theorem suffix?_mirrors (h : i.ReadsAlike read) (e : Expr) :
    i.MirrorsTry (Ended e) guard (fun found q => Ended (found.getD e) q) (suffix? read e)
      (suffix? read e) := by
  have hsome : ∀ {pre : Progress → Prop} {x : Attempt Expr}, i.MirrorsTry pre Always Ended x x →
      i.MirrorsTry pre guard (fun found q => Ended (found.getD e) q)
        (do return some (← x)) (do return some (← x)) := fun hx =>
    .bind hx fun _ => .pure fun _ hq _ => hq
  refine .lift_peek_bind (fun kind => ?_) (.pure fun _ hp _ => hp.1)
  split
  · exact .lift_advance_bind (fun p hp => hp.2) (by decide)
      (hsome (indexOf_mirrors h e fun _ hq => hq.begins rfl))
  · exact .lift_advance_bind (fun p hp => hp.2) (by decide) (hsome (memberOf_mirrors h e))
  · split
    · exact .bind (arguments_mirrors h) fun _ => .pure fun _ hq _ => ⟨rfl, hq.endsOperand rfl⟩
    · exact .pure fun _ hp _ => hp.1
  · exact .pure fun _ hp _ => hp.1

theorem suffixesFrom_mirrors (h : i.ReadsAlike read) (n n' : Nat) (hn : n ≤ n') (e : Expr) :
    i.Mirrors (Ended e) guard Ended (suffixesFrom read n e) (suffixesFrom read n' e) := by
  induction n generalizing n' e guard with
  | zero => exact ⟨nofun, nofun⟩
  | succ n ih =>
    obtain ⟨n', rfl⟩ : ∃ k, n' = k + 1 := ⟨n' - 1, by omega⟩
    simp only [suffixesFrom]
    refine .bind (suffix?_mirrors h e) fun r => ?_
    cases r with
    | error node =>
      refine .pure fun _ hq => ?_
      obtain ⟨found, hfound, -⟩ := hq
      cases hfound
    | ok found =>
      cases found with
      | none =>
        refine .pure fun q hq _ => ?_
        obtain ⟨found, hfound, hended⟩ := hq
        cases hfound
        exact hended
      | some next =>
        refine (ih n' (by omega) next).of_pre fun q hq => ?_
        obtain ⟨found, hfound, hended⟩ := hq
        cases hfound
        exact hended

theorem suffixed_mirrors (h : i.ReadsAlike read) (hpre : ∀ p, pre p → p.cursor.BeginsOperand) :
    i.Mirrors pre guard Ended (suffixed read) (suffixed read) := by
  refine .bind (leaf_mirrors h hpre) fun e => .remaining_bind fun n n' hn => ?_
  exact suffixesFrom_mirrors h _ _ (Nat.succ_le_succ hn) e

/-! ## Bonuses -/

/-- Behind a token that is ahead, at most the end of the text is seen. -/
theorem kindAt_one_iff {c c' : Cursor} (hbeside : i.Beside c c') {token : Token}
    {rest : List Token} (hrest : c.rest = token :: rest) {kind : TokenKind}
    (hkind : Telling kind) : c'.kindAt 1 = kind ↔ c.kindAt 1 = kind := by
  refine hbeside.kindAt_eq_iff ?_ hkind.1 hkind.2.1
  rw [hrest]
  exact Nat.succ_le_succ (Nat.zero_le _)

/-- Behind a word, if one was read, and otherwise where it was looked for. -/
def AtWord (pre : Progress → Prop) : Option String → Progress → Prop
  | some _, q => q.cursor.EndsOperand
  | none, q => pre q

theorem bareWord?_mirrors : i.Mirrors pre guard (AtWord pre) bareWord? bareWord? := by
  refine .here_bind fun c c' hbeside => ?_
  cases hrest : c.rest with
  | nil =>
    rw [hbeside.rest, hrest, List.map_nil, List.nil_append]
    cases htail : i.tail with
    | nil => exact .pure fun _ hp _ => hp.1
    -- a semicolon is no word
    | cons t ts =>
      have hkind : t.kind = .semicolon := i.tail_begins t (by rw [htail]; rfl)
      simp only [hkind, reduceCtorEq, decide_false, Bool.false_and, Bool.false_eq_true, if_false]
      exact .pure fun _ hp _ => hp.1
  | cons token rest =>
    rw [hbeside.rest_cons hrest]
    have hgrows : [TokenKind.openParen, .openSquare, .dot].contains (c'.kindAt 1) =
        [TokenKind.openParen, .openSquare, .dot].contains (c.kindAt 1) := by
      rw [Bool.eq_iff_iff]
      simp only [List.contains_iff_mem, List.mem_cons, List.not_mem_nil, or_false,
        kindAt_one_iff hbeside hrest (show Telling .openParen by decide),
        kindAt_one_iff hbeside hrest (show Telling .openSquare by decide),
        kindAt_one_iff hbeside hrest (show Telling .dot by decide)]
    simp only [i.move_kind, i.move_text, hgrows]
    split
    · rename_i hword
      have hkind : token.kind = .identifier := by
        simpa using (Bool.and_eq_true_iff.1 hword).1
      refine .advance_bind (fun p hp => ?_) (by decide : TokenKind.identifier ≠ .finish ∧ _)
        (.pure fun _ hq _ => hq.ends rfl)
      rw [hp.2, kind_of_rest hrest, hkind]
    · exact .pure fun _ hp _ => hp.1

theorem bonusArgument_mirrors (h : i.ReadsAlike read)
    (hpre : ∀ p, pre p → p.cursor.BeginsConditional) :
    i.Mirrors pre guard (fun _ _ => True) (bonusArgument read) (bonusArgument read) := by
  refine .here_bind fun c c' hbeside => ?_
  have hended : i.Mirrors (fun p => pre p ∧ p.cursor = c) guard Ended
      (withPairs (read .conditional)) (withPairs (read .conditional)) :=
    .withPairs (h.goal nofun fun p hp => hpre p hp.1)
  have hread : i.Mirrors (fun p => pre p ∧ p.cursor = c) guard (fun _ _ => True)
      (withPairs (read .conditional)) (withPairs (read .conditional)) :=
    hended.of_post fun _ _ _ => trivial
  cases hrest : c.rest with
  | nil =>
    rw [hbeside.rest, hrest, List.map_nil, List.nil_append]
    cases htail : i.tail with
    | nil => exact hread
    | cons t ts =>
      have hkind : t.kind = .semicolon := i.tail_begins t (by rw [htail]; rfl)
      simp only [hkind, reduceCtorEq, decide_false, Bool.and_false, Bool.false_eq_true, if_false]
      exact hread
  | cons token rest =>
    rw [hbeside.rest_cons hrest]
    simp only [i.move_kind, i.move_text,
      kindAt_one_iff hbeside hrest (show Telling .comma by decide),
      kindAt_one_iff hbeside hrest (show Telling .closeParen by decide)]
    -- a word or a star that stands for itself is passed
    have hnext : ∀ {kind : TokenKind}, token.kind = kind →
        ∀ p : Progress, pre p ∧ p.cursor = c → p.cursor.kind = kind := by
      intro kind hkind p hp
      rw [hp.2, kind_of_rest hrest, hkind]
    split
    · rename_i hword
      have hkind : token.kind = .identifier := by simpa using (Bool.and_eq_true_iff.1 hword).2
      exact .advance_bind (hnext hkind) (by decide) (.pure fun _ _ _ => trivial)
    · split
      · rename_i hstar
        have hkind : token.kind = .star := by simpa using (Bool.and_eq_true_iff.1 hstar).2
        exact .advance_bind (hnext hkind) (by decide) (.pure fun _ _ _ => trivial)
      · exact hread

theorem bonusDetails_mirrors (h : i.ReadsAlike read)
    (hpre : ∀ p, pre p → p.cursor.BeginsConditional) :
    i.MirrorsTry pre guard Ended (bonusDetails read) (bonusDetails read) := by
  -- each form ends with a closing parenthesis
  have hclose : ∀ {pre : Progress → Prop} (name : Expr) (type value : Option Expr),
      i.MirrorsTry pre guard Ended
        (do expect .closeParen .bonusEnd; return .bonus name type value)
        (do expect .closeParen .bonusEnd; return .bonus name type value) := fun _ _ _ =>
    .bind (.expect _ (by decide)) fun _ => .pure fun _ hq _ => ⟨rfl, hq.ends rfl⟩
  refine .lift_bind (bonusArgument_mirrors h hpre) fun name => ?_
  refine .lift_bind (.consumeIf (by decide)) fun typed => ?_
  cases typed with
  | false => exact hclose name none none
  | true =>
    refine .lift_bind (bonusArgument_mirrors h fun _ hq => hq.begins rfl) fun type => ?_
    refine .lift_bind (.consumeIf (by decide)) fun valued => ?_
    cases valued with
    | false => exact hclose name (some type) none
    | true =>
      refine .lift_bind (.withPairs (h.goal nofun fun _ hq => hq.begins rfl)) fun value => ?_
      exact hclose name (some type) (some value)

theorem bonus_mirrors (h : i.ReadsAlike read) :
    i.MirrorsTry pre guard Ended (bonus read) (bonus read) := by
  refine .lift_bind bareWord?_mirrors fun word => ?_
  cases word with
  | some word => exact .pure fun _ hq _ => ⟨rfl, hq⟩
  | none =>
    refine .lift_here_bind fun c c' hbeside => ?_
    cases hrest : c.rest with
    | nil => exact .fail _
    | cons token rest =>
      rw [hbeside.rest_cons hrest]
      simp only [i.move_kind, i.move_text]
      have hnext : ∀ {kind : TokenKind}, token.kind = kind →
          ∀ p : Progress, AtWord pre none p ∧ p.cursor = c → p.cursor.kind = kind := by
        intro kind hkind p hp
        rw [hp.2, kind_of_rest hrest, hkind]
      split
      · rename_i hkind
        exact .lift_advance_bind (hnext hkind) (by decide) (.pure fun _ hq _ => ⟨rfl, hq.ends rfl⟩)
      · split
        · rename_i hkind
          refine .lift_advance_bind (hnext hkind) (by decide) ?_
          exact bonusDetails_mirrors h fun _ hq => hq.begins rfl
        · exact .fail _

end Inset

end DiceScript
