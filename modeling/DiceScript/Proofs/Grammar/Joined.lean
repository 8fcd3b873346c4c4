import DiceScript.Proofs.Grammar.Inset.Statements
import DiceScript.Proofs.Grammar.Safety
import DiceScript.Proofs.Token.Joined

/-!
Two texts with a semicolon between them. If neither has mistakes, what is read is the statements of
the first and then those of the second. Two things must not reach across the semicolon: a bar that
no statement follows, and a parenthesis that only the second text closes.
-/

namespace DiceScript

open Reader Grammar

namespace Cursor

/-- A parenthesis of the first tokens that is looked past is closed only among the second ones,
counting parentheses alone, and in front of what is looked for. -/
def Spills (first second : List Token) : Prop :=
  ∃ c ∈ outsideBodies first, groupAt? c.rest = none ∧
    ∃ g ∈ groupAt? (c.rest ++ second), ∃ kind ∈ [TokenKind.arrow, .openCurly],
      c.looksPast kind = true ∧ g.followedBy kind = true

instance (first second : List Token) : Decidable (Spills first second) :=
  inferInstanceAs (Decidable (∃ c ∈ outsideBodies first, _))

theorem followedBy_map {f : Token → Token} (hf : ∀ t, (f t).kind = t.kind) {g g' : Group}
    (h : g'.after = g.after.map f) (kind : TokenKind) : g'.followedBy kind = g.followedBy kind := by
  unfold Group.followedBy
  rw [h]
  cases g.after with
  | nil => rfl
  | cons t after => simp [hf]

theorem semicolon_ne {opening closing : TokenKind} (h : opening.closing? = some closing) :
    opening ≠ .semicolon ∧ closing ≠ .semicolon := by
  cases opening <;> cases h <;> decide

/-- A group whose first token is not closed among the first tokens reaches behind the semicolon. -/
theorem inside_across {rest more : List Token} {g : Group} {semicolon : Token}
    (hsemicolon : semicolon.kind = .semicolon) (hnone : groupAt? (g.opening :: rest) = none)
    (hg : groupAt? (g.opening :: (rest ++ semicolon :: more)) = some g) :
    ∃ inside, g.inside = rest ++ semicolon :: inside ∧ more = inside ++ g.closing :: g.after := by
  obtain ⟨hparts, hclosing, hopen⟩ := groupAt?_iff.1 hg
  obtain ⟨k, hk⟩ := (groupAt?_eq_none_iff hclosing).1 hnone
  have hne : g.closing ≠ semicolon := fun heq =>
    (semicolon_ne hclosing).2 (by rw [heq, hsemicolon])
  rcases List.append_eq_append_iff.1 (List.cons.inj hparts).2 with ⟨xs, hinside, hafter⟩ |
    ⟨xs, hrest, hafter⟩
  · cases xs with
    | nil => exact absurd (List.cons.inj hafter).1.symm hne
    | cons t xs =>
      obtain ⟨rfl, hmore⟩ := List.cons.inj hafter
      exact ⟨xs, hinside, hmore⟩
  · cases xs with
    | nil => exact absurd (List.cons.inj hafter).1 hne
    -- the bracket would be closed among the first tokens
    | cons t xs =>
      obtain ⟨rfl, -⟩ := List.cons.inj hafter
      rw [hrest, List.map_append, openAfter_append, hopen, Option.bind_some, List.map_cons,
        openAfter, if_neg (closing?_ne hclosing).1.symm, if_pos rfl, if_pos rfl] at hk
      cases hk

/-- Neither a semicolon in between nor where the second tokens stand makes a difference to what is
found behind a parenthesis that is not closed. -/
theorem group_across {rest second : List Token} {g : Group} {semicolon : Token}
    {move : Token → Token} (hsemicolon : semicolon.kind = .semicolon)
    (hmove : ∀ t, (move t).kind = t.kind) (hnone : groupAt? rest = none)
    (hg : groupAt? (rest ++ semicolon :: second.map move) = some g) (hne : rest ≠ []) :
    ∃ g' ∈ groupAt? (rest ++ second), ∀ kind, g'.followedBy kind = g.followedBy kind := by
  obtain ⟨hparts, hclosing, hopen⟩ := groupAt?_iff.1 hg
  obtain ⟨token, rest, rfl⟩ := List.exists_cons_of_ne_nil hne
  obtain ⟨rfl, -⟩ := List.cons.inj hparts
  obtain ⟨inside, hinside, hbehind⟩ := inside_across hsemicolon hnone hg
  obtain ⟨xs, ys, rfl, rfl, hys⟩ := List.map_eq_append_iff.1 hbehind
  obtain ⟨bracket, zs, rfl, hbracket, hzs⟩ := List.map_eq_cons_iff.1 hys
  have hkind : g.closing.kind = bracket.kind := by rw [← hbracket, hmove]
  refine ⟨⟨g.opening, rest ++ xs, bracket, zs⟩, groupAt?_iff.2 ⟨?_, hkind ▸ hclosing, ?_⟩,
    fun kind => (followedBy_map hmove hzs.symm kind).symm⟩
  · simp
  -- the semicolon is no bracket
  · have hkinds : (xs.map move).map Token.kind = xs.map Token.kind := by
      simp only [List.map_map, Function.comp_def, hmove]
    obtain ⟨hopening, hcloses⟩ := semicolon_ne hclosing
    rw [hinside, List.map_append, List.map_cons, hsemicolon, hkinds, openAfter_append,
      hkind] at hopen
    rw [hkind] at hcloses
    rw [List.map_append, openAfter_append]
    simpa only [openAfter, if_neg hopening.symm, if_neg hcloses.symm] using hopen

/-- A parenthesis that spills in front of a semicolon spills without it. -/
theorem spills_of_group {first second : List Token} {c : Cursor} {kind : TokenKind} {g : Group}
    {semicolon : Token} {move : Token → Token} (hsemicolon : semicolon.kind = .semicolon)
    (hmove : ∀ t, (move t).kind = t.kind) (hc : c ∈ outsideBodies first)
    (hlooks : c.looksPast kind = true) (hnone : groupAt? c.rest = none)
    (hg : groupAt? (c.rest ++ semicolon :: second.map move) = some g)
    (hfollow : g.followedBy kind = true) : Spills first second := by
  obtain ⟨hkind, hlooked⟩ := of_looksPast hlooks
  have hrest : c.rest ≠ [] := rest_ne_nil_of_kind hkind (by decide)
  obtain ⟨g', hg', hsame⟩ := group_across hsemicolon hmove hnone hg hrest
  refine ⟨c, hc, hnone, g', hg', kind, ?_, hlooks, (hsame kind).trans hfollow⟩
  rcases hlooked with rfl | rfl <;> decide

end Cursor

namespace Grammar

/-- The last token other than a semicolon is a bar. -/
def EndsInBar (tokens : List Token) : Prop :=
  ∃ t ∈ (tokens.filter (·.kind ≠ .semicolon)).getLast?, t.kind = .bar

instance (tokens : List Token) : Decidable (EndsInBar tokens) :=
  inferInstanceAs (Decidable (∃ t ∈ (tokens.filter (·.kind ≠ .semicolon)).getLast?, t.kind = .bar))

theorem EndsInBar.semicolon {tokens : List Token} {t : Token} (h : EndsInBar tokens)
    (ht : t.kind = .semicolon) : EndsInBar (tokens ++ [t]) := by
  simpa [EndsInBar, ht] using h

theorem EndsInBar.bar (tokens : List Token) {t : Token} (ht : t.kind = .bar) :
    EndsInBar (tokens ++ [t]) := by
  refine ⟨t, ?_, ht⟩
  simp [ht]

end Grammar

namespace Inset

/-! ## Statements of the text -/

variable {i : Inset} {read : Goal → Reader Expr}

/-- Statements of the larger text: those of the text if that is the end, and otherwise those and
the ones behind a semicolon, unless a bar waits for the first of them. -/
structure Carried (i : Inset) (read : Goal → Reader Expr) (piped : Bool) (p' : Progress)
    (elements : List Element) (q' : Progress) : Prop where
  ends : q'.cursor.kind = .finish → Statements read none ⟨i.whole, true⟩ piped p' elements q'
  goesOn : ¬ EndsInBar i.tokens → q'.cursor.kind = .semicolon → ∀ more r,
    Statements read none ⟨i.whole, true⟩ false q'.advanced more r →
    Statements read none ⟨i.whole, true⟩ piped p' (elements ++ more) r

namespace Carried

variable {piped : Bool} {p' r' q' : Progress} {e : Expr} {elements : List Element}

/-- A bar that waits where the text ends is the last one of its tokens. -/
theorem stop (hbar : piped = true → EndsInBar i.tokens) : i.Carried read piped p' [] p' where
  ends hfinish := .stop (.inl hfinish)
  goesOn hnobar hkind more r hs := by
    have hnone : piped = false := Bool.eq_false_iff.2 fun hpiped => hnobar (hbar hpiped)
    subst hnone
    refine .skip (fun hends => ?_) hkind hs
    rw [hkind] at hends
    rcases hends with hends | hends <;> cases hends

theorem skip (hopen : ¬ Ends none p'.cursor.kind) (hkind : p'.cursor.kind = .semicolon)
    (h : i.Carried read piped p'.advanced elements q') :
    i.Carried read piped p' elements q' where
  ends hfinish := .skip hopen hkind (h.ends hfinish)
  goesOn hbar hend more r hs := .skip hopen hkind (h.goesOn hbar hend more r hs)

theorem last (hopen : ¬ Ends none p'.cursor.kind) (hkind : p'.cursor.kind ≠ .semicolon)
    (he : outcome (wholeStatement read none) ⟨i.whole, true⟩ p' = some (e, q')) :
    i.Carried read piped p' [⟨piped, e⟩] q' where
  ends hfinish := by
    refine .last hopen hkind he ?_
    rw [hfinish]
    decide
  goesOn _ hend more r hs := by
    refine .next hopen hkind he (.inl hend) ?_
    simpa [hend] using hs

theorem next (hopen : ¬ Ends none p'.cursor.kind) (hkind : p'.cursor.kind ≠ .semicolon)
    (he : outcome (wholeStatement read none) ⟨i.whole, true⟩ p' = some (e, r'))
    (hend : r'.cursor.kind = .semicolon ∨ r'.cursor.kind = .bar)
    (h : i.Carried read (r'.cursor.kind = .bar) r'.advanced elements q') :
    i.Carried read piped p' (⟨piped, e⟩ :: elements) q' where
  ends hfinish := .next hopen hkind he hend (h.ends hfinish)
  goesOn hbar hmore more r hs := .next hopen hkind he hend (h.goesOn hbar hmore more r hs)

end Carried

theorem statements_grow (h : i.ReadsAlike read) {piped : Bool} {p q : Progress}
    {elements : List Element} (hs : Statements read none ⟨i.own, true⟩ piped p elements q) :
    p.mistakes.length ≤ q.mistakes.length := by
  have hwhole : i.Mirrors (fun p => p.cursor.BeginsConditional) Always Ended
      (wholeStatement read none) (wholeStatement read none) := wholeStatement_mirrors h none
  induction hs with
  | stop _ => exact Nat.le_refl _
  | skip _ _ _ ih => exact ih
  | last _ _ he _ => exact hwhole.grows he
  | next _ _ he _ _ ih => exact Nat.le_trans (hwhole.grows he) ih

theorem rest_ne_nil_of_open {terminator : Option TokenKind} {c : Cursor}
    (h : ¬ Ends terminator c.kind) : c.rest ≠ [] :=
  Cursor.rest_ne_nil_of_kind rfl fun hkind => h (.inl hkind)

/-- Where a sequence goes on in the text, it goes on in the larger text. -/
theorem Beside.goes_on {c c' : Cursor} (hbeside : i.Beside c c') (h : ¬ Ends none c.kind) :
    c'.kind = c.kind ∧ ¬ Ends none c'.kind := by
  have hkind : c'.kind = c.kind :=
    hbeside.kindAt_eq (List.length_pos_iff.2 (rest_ne_nil_of_open h))
  exact ⟨hkind, hkind ▸ h⟩

/-- The token in front of the cursor is of a kind that scripts have. -/
def Known (c : Cursor) : Prop := ∀ t ∈ c.before.head?, t.kind ≠ .unknown

theorem known_of_begins {c : Cursor} (h : c.BeginsConditional) : Known c := by
  intro t ht hkind
  rw [Cursor.BeginsConditional, Cursor.beginsConditional, Option.mem_def.1 ht] at h
  rw [Option.all_some, hkind] at h
  cases h

theorem known_of_ends {c : Cursor} (h : c.EndsOperand) : Known c := by
  intro t ht hkind
  obtain ⟨before, hbefore⟩ := List.head?_eq_some_iff.1 ht
  simp [Cursor.EndsOperand, hbefore, Cursor.endsOperand, hkind, Cursor.closesOperand] at h

/-- A separator is passed in the text and in the larger text. Behind it a statement may begin. -/
theorem Beside.pass {c c' : Cursor} (hbeside : i.Beside c c') (hc : i.Arrived c)
    (hkind : c.kind = .semicolon ∨ c.kind = .bar) :
    i.Beside c.advance c'.advance ∧ i.Arrived c.advance ∧ c.advance.BeginsConditional ∧
      ∃ t, t.kind = c.kind ∧ c.advance.before = t :: c.before := by
  have hfinish : c.kind ≠ .finish := by rcases hkind with hkind | hkind <;> rw [hkind] <;> decide
  have hcurly : c.kind ≠ .openCurly := by rcases hkind with hkind | hkind <;> rw [hkind] <;> decide
  refine ⟨hbeside.advance (Cursor.rest_ne_nil_of_kind rfl hfinish),
    Cursor.advance_outside hc (.inl hcurly), ?_, Cursor.advance_before rfl hfinish⟩
  refine (Cursor.behind_advance rfl hfinish).beginsConditional ?_
  rcases hkind with hkind | hkind <;> rw [hkind] <;> rfl

/-- What is read of the text without a mistake is read of it in the larger text. -/
theorem statements_carried (h : i.ReadsAlike read) {piped : Bool} {p p' q : Progress}
    {elements : List Element} (hs : Statements read none ⟨i.own, true⟩ piped p elements q)
    (hp : i.Arrived p.cursor) (hbegins : p.cursor.BeginsConditional)
    (hbeside : i.Beside p.cursor p'.cursor) (hclean : Clean p q) (hq : q.cursor.rest = [])
    (hpiped : piped = true → EndsInBar p.cursor.before.reverse) :
    i.Arrived q.cursor ∧ Known q.cursor ∧
      ∃ q', i.Beside q.cursor q'.cursor ∧ q'.mistakes = p'.mistakes ∧
        i.Carried read piped p' elements q' := by
  have hwhole : i.Mirrors (fun p => p.cursor.BeginsConditional) Always Ended
      (wholeStatement read none) (wholeStatement read none) := wholeStatement_mirrors h none
  induction hs generalizing p' with
  | @stop piped p hends =>
    have hbar : piped = true → EndsInBar i.tokens := by
      rwa [hp.parts, hq, List.append_nil]
    exact ⟨hp, known_of_begins hbegins, p', hbeside, rfl, .stop hbar⟩
  | @skip piped p q elements hopen hkind hrest ih =>
    obtain ⟨hkind', hopen'⟩ := hbeside.goes_on hopen
    obtain ⟨hadvance, hpassed, hbegins', t, ht, hbefore⟩ := hbeside.pass hp (.inl hkind)
    have hnext : i.Beside p.advanced.cursor p'.advanced.cursor := hadvance
    -- a bar that waits goes on waiting
    have hpiped' : piped = true → EndsInBar p.advanced.cursor.before.reverse := by
      intro hpiped'
      show EndsInBar p.cursor.advance.before.reverse
      rw [hbefore, List.reverse_cons]
      exact (hpiped hpiped').semicolon (ht.trans hkind)
    obtain ⟨harrived, hknown, q', hbeside', hmistakes, hcarried⟩ :=
      ih hpassed hbegins' hnext hclean hq hpiped'
    exact ⟨harrived, hknown, q', hbeside', hmistakes,
      hcarried.skip hopen' (hkind'.trans hkind)⟩
  | @last piped p q e hopen hkind he hend =>
    obtain ⟨hkind', hopen'⟩ := hbeside.goes_on hopen
    obtain ⟨hended, harrived, q', he', hbeside', hmistakes⟩ :=
      hwhole.reached hp hbeside hbegins he hclean trivial
    exact ⟨harrived, known_of_ends hended.2, q', hbeside', hmistakes,
      .last hopen' (hkind' ▸ hkind) he'⟩
  | @next piped p r q e elements hopen hkind he hend hrest ih =>
    obtain ⟨hkind', hopen'⟩ := hbeside.goes_on hopen
    have hgrows : r.advanced.mistakes.length ≤ q.mistakes.length := statements_grow h hrest
    have hfirst : Clean p r := Nat.le_antisymm (hclean ▸ hgrows) (hwhole.grows he)
    have hsecond : Clean r.advanced q := hclean.trans hfirst.symm
    obtain ⟨-, harrived, r', he', hbeside', hmistakes⟩ :=
      hwhole.reached hp hbeside hbegins he hfirst trivial
    -- a separator stands behind the statement, and the same one in the larger text
    have hsame : r'.cursor.kind = r.cursor.kind := by
      refine hbeside'.kindAt_eq (List.length_pos_iff.2 (Cursor.rest_ne_nil_of_kind rfl ?_))
      rcases hend with hend | hend <;> rw [hend] <;> decide
    obtain ⟨hadvance, hpassed, hbegins', t, ht, hbefore⟩ := hbeside'.pass harrived hend
    have hnext : i.Beside r.advanced.cursor r'.advanced.cursor := hadvance
    have hpiped' : decide (r.cursor.kind = .bar) = true →
        EndsInBar r.advanced.cursor.before.reverse := by
      intro hbar
      show EndsInBar r.cursor.advance.before.reverse
      rw [hbefore, List.reverse_cons]
      exact .bar _ (ht.trans (of_decide_eq_true hbar))
    obtain ⟨harrived', hknown, q', hbeside'', hmistakes', hcarried⟩ :=
      ih hpassed hbegins' hnext hsecond hq hpiped'
    rw [← hsame] at hcarried
    exact ⟨harrived', hknown, q', hbeside'', hmistakes'.trans hmistakes,
      hcarried.next hopen' (hkind' ▸ hkind) he' (hsame ▸ hend)⟩

/-! ## A text alone, in front of another and behind another -/

/-- A text that nothing stands around. -/
def alone (text : String) : Inset where
  own := text.toList
  whole := text.toList
  tokens := scanned text
  tail := []
  move := id
  move_kind _ := rfl
  move_text _ := rfl
  tail_begins := nofun
  between _ := rfl
  apart _ _ hnone hsome := by
    rw [List.map_id, List.append_nil, hnone] at hsome
    cases hsome

/-- A text in front of a semicolon and another text. -/
def inFront (first second : String) (hsmall : (first ++ ";" ++ second).utf8ByteSize < 2 ^ 32)
    (h : ¬ Cursor.Spills (scanned first) (scanned second)) : Inset where
  own := first.toList
  whole := first.toList ++ ';' :: second.toList
  tokens := scanned first
  tail := Token.semicolonAt (Token.lex first.toList).2 ::
    (scanned second).map (Token.moved ((Token.lex first.toList).2.next ';'))
  move := id
  move_kind _ := rfl
  move_text _ := rfl
  tail_begins t ht := by
    cases ht
    rfl
  between htokens := by
    have hsize : Text.size ([] ++ first.toList ++ ';' :: second.toList) < 2 ^ 32 := by
      simpa [Text.utf8ByteSize_eq_size] using hsmall
    have hslice := (Token.lex_scanned first.toList).slice_inside htokens hsize
    rw [show Position.start.advance [] = .start from rfl, Position.start_later,
      Position.start_later] at hslice
    simpa using hslice
  apart hc hlooks hnone hsome := by
    rw [List.map_id] at hsome
    by_contra hfollow
    rw [Bool.not_eq_false] at hfollow
    exact h (Cursor.spills_of_group rfl (Token.moved_kind _) hc hlooks hnone hsome hfollow)

/-- A text behind another text and a semicolon. -/
def behind (first second : String) (hsmall : (first ++ ";" ++ second).utf8ByteSize < 2 ^ 32) :
    Inset where
  own := second.toList
  whole := first.toList ++ ';' :: second.toList
  tokens := scanned second
  tail := []
  move := Token.moved ((Token.lex first.toList).2.next ';')
  move_kind := Token.moved_kind _
  move_text := Token.moved_text _
  tail_begins := nofun
  between htokens := by
    have hsize : Text.size (first.toList ++ [';'] ++ second.toList ++ []) < 2 ^ 32 := by
      simpa [Text.utf8ByteSize_eq_size] using hsmall
    have hslice := (Token.lex_scanned second.toList).slice_inside htokens hsize
    rw [Position.advance_append, ← (Token.lex_scanned first.toList).last_eq] at hslice
    rw [List.append_nil, List.append_assoc] at hslice
    exact hslice
  apart {c kind g} _ _ hnone hsome := by
    rw [List.append_nil, Cursor.groupAt?_map_none (Token.moved_kind _) hnone] at hsome
    cases hsome

end Inset

/-! ## Statements of whole texts -/

namespace Grammar

theorem elementsFrom_alike {read read' : Goal → Reader Expr} {r : Nat}
    (h : ∀ goal, Alike r (read goal) (read' goal)) (terminator : Option TokenKind) (n : Nat)
    (piped : Bool) {s : Setting} {p : Progress} (hn : p.remaining < n) (hp : p.remaining < r + 1) :
    AgreeAt (elementsFrom read terminator n piped) (elementsFrom read' terminator n piped) s p := by
  induction n generalizing p piped with
  | zero => exact absurd hn (Nat.not_lt_zero _)
  | succ n ih =>
    refine .bind (turn_alike h terminator none piped s p hp) fun t q hq hle => ?_
    have hagain : ∀ next nextPiped, t = .again next nextPiped →
        AgreeAt (elementsFrom read terminator n nextPiped)
          (elementsFrom read' terminator n nextPiped) s q := by
      rintro next nextPiped rfl
      have hlt := turn_again (fun goal s p hp => (h goal s p hp).left) hp hq
      exact ih nextPiped (by omega) (by omega)
    rcases t with (_ | e) | ⟨_ | e, nextPiped⟩
    · exact .pure _
    · exact .pure _
    · exact hagain none nextPiped rfl
    · exact .bind (hagain (some e) nextPiped rfl) fun _ _ _ _ => .pure _

/-- Whatever nesting is allowed beyond the number of tokens, the statements of a text are read, and
its tree is made of them. -/
theorem statements_of_text (text : String) {n : Nat} (hn : (scanned text).length ≤ n) :
    ∃ q, Statements (readWithin n) none ⟨text.toList, true⟩ false ⟨.ofTokens (scanned text), []⟩
        (Script.statements text) q ∧
      Script.ofText text = ⟨(chained none (Script.statements text)).getD .empty, q.mistakes⟩ ∧
      q.cursor.rest = [] := by
  obtain ⟨elements, q, hown, hmore, -⟩ :=
    elementsFrom_alike (readWithin_alike (Nat.le_refl _) hn) none ((scanned text).length + 1) false
      (s := ⟨text.toList, true⟩) (p := ⟨.ofTokens (scanned text), []⟩) (Nat.lt_succ_self _)
      (Nat.lt_succ_self _)
  have helements : Script.statements text = elements :=
    congrArg (fun o => (o.map Prod.fst).getD []) hown
  obtain ⟨root, q', hroot, hparse, -, hend⟩ := reading_ends_at_the_end text
  have hsame : some (root, q') = some ((chained none elements).getD .empty, q) := by
    rw [← hroot]
    refine (outcome_sequence_elements _).trans ?_
    exact congrArg (Option.map fun r => ((chained none r.1).getD .empty, r.2)) hown
  cases hsame
  rw [helements]
  exact ⟨q, statements_of_elementsFrom hmore, hparse, hend⟩

/-- A text without mistakes is read without noting one. -/
theorem clean_of_text {text : String} {elements : List Element} {q : Progress}
    (h : (Script.ofText text).mistakes = [])
    (hparse : Script.ofText text = ⟨(chained none elements).getD .empty, q.mistakes⟩) :
    Inset.Clean ⟨.ofTokens (scanned text), []⟩ q := by
  rw [hparse] at h
  exact congrArg List.length h

/-- The last token of a text without mistakes is of a kind that scripts have. -/
theorem last_token_known {text : String} (h : (Script.ofText text).mistakes = []) :
    ∀ t ∈ (scanned text).getLast?, t.kind ≠ .unknown := by
  obtain ⟨q, hs, hparse, hend⟩ := statements_of_text text (Nat.le_refl _)
  have hstart : (Inset.alone text).Beside (Cursor.ofTokens (scanned text))
      (Progress.mk (.ofTokens (scanned text)) []).cursor := by
    refine ⟨?_⟩
    simp [Inset.alone, Cursor.ofTokens]
  have hread := (Inset.alone text).readWithin_alike_inside (scanned text).length
  obtain ⟨harrived, hknown, -⟩ := Inset.statements_carried hread hs
    (Cursor.ofTokens_outside _) rfl hstart (clean_of_text h hparse) hend nofun
  have htokens : scanned text = q.cursor.before.reverse ++ q.cursor.rest := harrived.parts
  rw [htokens, hend, List.append_nil, List.getLast?_reverse]
  exact hknown

/-- Behind another text and a semicolon, the statements of a text without mistakes are read. -/
theorem statements_behind (first : String) {second : String}
    (hsmall : (first ++ ";" ++ second).utf8ByteSize < 2 ^ 32)
    (h : (Script.ofText second).mistakes = []) {n : Nat} (hn : (scanned second).length ≤ n)
    {p : Progress} (hp : p.cursor.rest =
      (scanned second).map (Token.moved ((Token.lex first.toList).2.next ';'))) :
    ∃ q, Statements (readWithin n) none ⟨(first ++ ";" ++ second).toList, true⟩ false p
      (Script.statements second) q ∧ q.mistakes = p.mistakes := by
  obtain ⟨q, hs, hparse, hend⟩ := statements_of_text second hn
  have hstart : (Inset.behind first second hsmall).Beside (Cursor.ofTokens (scanned second))
      p.cursor := by
    refine ⟨?_⟩
    rw [hp]
    simp [Inset.behind, Cursor.ofTokens]
  have hread := (Inset.behind first second hsmall).readWithin_alike_inside n
  obtain ⟨-, -, q', hbeside, hmistakes, hends, -⟩ := Inset.statements_carried hread hs
    (Cursor.ofTokens_outside _) rfl hstart (clean_of_text h hparse) hend nofun
  have hfinish : q'.cursor.kind = .finish := by
    rw [Cursor.kind_eq, hbeside.rest, hend]
    rfl
  have htext : (first ++ ";" ++ second).toList = first.toList ++ ';' :: second.toList := by simp
  rw [htext]
  exact ⟨q', hends hfinish, hmistakes⟩

/-- The tokens of two texts with a semicolon between them. -/
theorem scanned_joined (first second : String)
    (h : ∀ t ∈ (scanned first).getLast?, ¬ t.IsOpenLiteral) :
    scanned (first ++ ";" ++ second) =
      scanned first ++ Token.semicolonAt (Token.lex first.toList).2 ::
        (scanned second).map (Token.moved ((Token.lex first.toList).2.next ';')) := by
  have htext : (first ++ ";" ++ second).toList = first.toList ++ ';' :: second.toList := by simp
  rw [scanned, htext, Token.scan_joined first.toList second.toList h]
  rfl

/-- The statements of two texts with a semicolon between them are those of the first and those of
the second, if neither has mistakes and nothing reaches across the semicolon. -/
theorem statements_joined {first second : String}
    (hsmall : (first ++ ";" ++ second).utf8ByteSize < 2 ^ 32)
    (hfirst : (Script.ofText first).mistakes = [])
    (hsecond : (Script.ofText second).mistakes = []) (hbar : ¬ EndsInBar (scanned first))
    (hspills : ¬ Cursor.Spills (scanned first) (scanned second)) :
    Script.statements (first ++ ";" ++ second) =
        Script.statements first ++ Script.statements second ∧
      (Script.ofText (first ++ ";" ++ second)).mistakes = [] := by
  have htokens := scanned_joined first second fun t ht hopen =>
    last_token_known hfirst t ht hopen.1
  have htext : (first ++ ";" ++ second).toList = first.toList ++ ';' :: second.toList := by simp
  obtain ⟨q, hs, hparse, hend⟩ := statements_of_text (first ++ ";" ++ second) (Nat.le_refl _)
  have hlength := congrArg List.length htokens
  rw [List.length_append, List.length_cons, List.length_map] at hlength
  -- the first text is read in front of the semicolon
  obtain ⟨q₁, hs₁, hparse₁, hend₁⟩ := statements_of_text first
    (n := (scanned (first ++ ";" ++ second)).length) (by omega)
  have hstart : (Inset.inFront first second hsmall hspills).Beside (Cursor.ofTokens (scanned first))
      (Progress.mk (.ofTokens (scanned (first ++ ";" ++ second))) []).cursor := by
    refine ⟨?_⟩
    rw [htokens]
    simp [Inset.inFront, Cursor.ofTokens]
  have hread := (Inset.inFront first second hsmall hspills).readWithin_alike_inside
    (scanned (first ++ ";" ++ second)).length
  obtain ⟨-, -, r, hbeside, hmistakes, -, hgoesOn⟩ := Inset.statements_carried hread hs₁
    (Cursor.ofTokens_outside _) rfl hstart (clean_of_text hfirst hparse₁) hend₁ nofun
  have hrest := hbeside.rest
  rw [hend₁, List.map_nil, List.nil_append] at hrest
  have hsemicolon : r.cursor.kind = .semicolon := by
    rw [Cursor.kind_eq, hrest]
    rfl
  -- and then the second behind it
  have hadvanced : r.advanced.cursor.rest =
      (scanned second).map (Token.moved ((Token.lex first.toList).2.next ';')) := by
    rw [Progress.advanced, Cursor.advance, hrest]
    rfl
  obtain ⟨q₂, hs₂, hmistakes₂⟩ := statements_behind first hsmall hsecond
    (n := (scanned (first ++ ";" ++ second)).length) (by omega) hadvanced
  rw [htext] at hs hs₂
  have hboth := hgoesOn hbar hsemicolon _ _ hs₂
  obtain ⟨helements, rfl⟩ := hs.unique hboth
  refine ⟨helements, ?_⟩
  rw [hparse]
  exact hmistakes₂.trans hmistakes

/-- What stands in the body of a function is not looked past, in whatever text it is closed. -/
example : ¬ Cursor.Spills (scanned "f = => \x7b(\x7d") (scanned "g = => \x7b) => 1\x7d") := by
  decide +kernel

end Grammar

end DiceScript
