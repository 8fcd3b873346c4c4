import DiceScript.Proofs.Grammar.Levels
import DiceScript.Proofs.Grammar.Mistakes.Rules
import DiceScript.Proofs.Token.Cut
import DiceScript.Proofs.Token.Partition
import DiceScript.Proofs.Token.Written
import DiceScript.Value

/-!
Functions that are written and read again. The body of a function is text that was cut out between
two curly brackets and lost the blanks at its ends. Between other brackets it still has its own, so
the text of a function is read as that function.
-/

namespace DiceScript

/-! ## Bodies -/

namespace Token

/-- A text that can stand between curly brackets: in it, every such bracket has its partner and no
literal is left open. -/
def Enclosable (cs : List Char) : Prop :=
  ∃ p ts last, Scanned p cs ts last ∧ (∀ t ∈ ts, ¬ t.IsOpenLiteral) ∧
    Cursor.openAfter .openCurly .closeCurly 0 (ts.map Token.kind) = some 0

theorem openAfter_of_unknown {us : List Token} (hus : ∀ u ∈ us, u.kind = .unknown) (depth : Nat) :
    Cursor.openAfter .openCurly .closeCurly depth (us.map Token.kind) = some depth := by
  refine Cursor.openAfter_neutral (fun kind hkind => ?_) depth
  obtain ⟨u, hu, rfl⟩ := List.mem_map.1 hkind
  rw [hus u hu]
  decide

/-- Blanks at the ends make no difference. -/
theorem Enclosable.trim {cs : List Char} (h : Enclosable cs) : Enclosable (Text.trim cs) := by
  obtain ⟨p, ts, last, hscanned, hopen, hbalanced⟩ := h
  obtain ⟨front, back, hparts, hfront, hback⟩ := Text.trim_parts cs
  rw [hparts, List.append_assoc] at hscanned
  obtain ⟨us, ts, rfl, hus, hscanned⟩ := hscanned.behind_blanks hfront
  have hopen' : ∀ t ∈ ts, ¬ t.IsOpenLiteral := fun t ht => hopen t (List.mem_append_right us ht)
  obtain ⟨ts, vs, rfl, hvs, hscanned⟩ := hscanned.before_blanks hback hopen'
  refine ⟨_, ts, _, hscanned, fun t ht => hopen' t (List.mem_append_left vs ht), ?_⟩
  -- the tokens that are dropped are no brackets
  rw [List.map_append, List.map_append, Cursor.openAfter_append, openAfter_of_unknown hus,
    Option.bind_some, Cursor.openAfter_append] at hbalanced
  obtain ⟨depth, hdepth, hrest⟩ := Option.bind_eq_some_iff.1 hbalanced
  rw [openAfter_of_unknown hvs] at hrest
  rw [hdepth, hrest]

/-- The text between two curly brackets that match can stand between others. -/
theorem enclosable_of_group {p last : Position} {cs : List Char} {front rest : List Token}
    {g : Cursor.Group} (h : Scanned p cs (front ++ rest) last)
    (hsmall : Text.size cs < 2 ^ 32) (hg : Cursor.groupAt? rest = some g)
    (hopening : g.opening.kind = .openCurly) :
    ∃ before part after, cs = before ++ part ++ after ∧ g.opening.span.last = p.advance before ∧
      g.closing.span.first = p.advance (before ++ part) ∧ Enclosable part := by
  have hparts := Cursor.groupAt?_parts hg
  have hclosing : g.closing.kind = .closeCurly :=
    Cursor.kind_of_closing? hg (by rw [hopening]; rfl)
  rw [hparts] at h
  obtain ⟨before, back, rfl, hlast, hback⟩ := h.behind
  obtain ⟨part, c, after, rfl, hfirst, -, hkind, -⟩ := hback.fromToken
  obtain rfl : c = '\x7d' := closeCurly_begins (hkind ▸ hclosing)
  refine ⟨before, part, '\x7d' :: after, (List.append_assoc ..).symm, hlast, ?_, ?_⟩
  · rw [hfirst, Position.advance_append]
  -- what stands inside is read alone as it was read there
  · rw [Text.size_append] at hsmall
    have hinside := hback.cut (by decide) (by omega) hfirst
    refine ⟨_, g.inside, _, hinside, fun t ht hliteral => ?_, ?_⟩
    · obtain ⟨xs, ys, hsplit⟩ := List.append_of_mem ht
      rw [hsplit, List.append_assoc, List.cons_append] at hback
      exact List.append_ne_nil_of_right_ne_nil ys (List.cons_ne_nil _ _) (hback.after_open hliteral)
    · have hopen := (Cursor.groupAt?_iff.1 hg).2.2
      rwa [hopening, hclosing] at hopen

/-- The bracket at a place. -/
def closeCurlyAt (p : Position) : Token := ⟨.closeCurly, "\x7d", ⟨p, p.advance ['\x7d']⟩⟩

/-- Between curly brackets, with a space on either side, such a text is a group. -/
theorem Enclosable.scanned {cs : List Char} (h : Enclosable cs) (p : Position) :
    ∃ ts last, Scanned p (' ' :: (cs ++ [' ', '\x7d']))
        (ts ++ [closeCurlyAt (p.advance (' ' :: (cs ++ [' '])))]) last ∧
      Cursor.openAfter .openCurly .closeCurly 0 (ts.map Token.kind) = some 0 := by
  obtain ⟨q, us, last, hscanned, hopen, hbalanced⟩ := h
  obtain ⟨ts, hts, hwords⟩ := hscanned.elsewhere (p.next ' ')
  have hkinds : ts.map Token.kind = us.map Token.kind := by
    have hkind := congrArg (List.map Word.kind) hwords
    rwa [List.map_map, List.map_map] at hkind
  have hopen' : ∀ t ∈ ts.getLast?, ¬ t.IsOpenLiteral := by
    intro t ht hliteral
    have hmem : t.word ∈ us.map word := hwords ▸ List.mem_map_of_mem (List.mem_of_getLast? ht)
    obtain ⟨u, hu, hword⟩ := List.mem_map.1 hmem
    have hsame : u.kind = t.kind ∧ u.text = t.text :=
      ⟨congrArg Word.kind hword, congrArg Word.text hword⟩
    refine hopen u hu ?_
    rw [IsOpenLiteral, hsame.1, hsame.2]
    exact hliteral
  have hplace : ((p.next ' ').advance cs).next ' ' = p.advance (' ' :: (cs ++ [' '])) := by
    rw [← List.cons_append, Position.advance_append]
    rfl
  have hmark : Lexes ['\x7d'] (.mark .closeCurly) [] := mark_lexes (by decide) rfl []
  have hclosing := Scanned.separator (p := (p.next ' ').advance cs) (c := ' ') rfl
    (hmark.scanned (.nil _))
  rw [hplace] at hclosing
  exact ⟨ts, _, .separator rfl (hts.append hopen' (by decide) hclosing), hkinds ▸ hbalanced⟩

/-- The names of parameters with commas between them. -/
def parameterWords : List String → List Word
  | [] => []
  | [name] => [.identifier name]
  | name :: names => .identifier name :: .mark .comma :: parameterWords names

/-- Names are read in front of a parenthesis, with a comma and a space between them. -/
theorem parameters_show {params : List String}
    (h : ∀ name ∈ params, ∃ c cs, Spelled (.identifier name) c cs) (rest : List Char) :
    Shows (parameterWords params) (String.intercalate ", " params).toList (')' :: rest) := by
  induction params with
  | nil =>
    rw [String.intercalate_nil]
    exact .nil _
  | cons name params ih =>
    obtain ⟨hname, hparams⟩ := List.forall_mem_cons.1 h
    cases params with
    | nil =>
      rw [String.intercalate_singleton]
      refine .single (identifier_lexes hname fun s hs => ?_)
      cases hs
      rfl
    | cons next params =>
      have hrest := ih hparams
      have hcomma : Lexes [','] (.mark .comma)
          (' ' :: (String.intercalate ", " (next :: params)).toList ++ ')' :: rest) :=
        mark_lexes (by decide) rfl _
      rw [String.intercalate_cons_cons, String.toList_append, String.toList_append,
        show ", ".toList = [','] ++ [' '] from rfl, List.append_assoc, List.append_assoc]
      refine .word (identifier_lexes hname fun s hs => ?_) (.word hcomma (.separator rfl hrest))
      cases hs
      rfl

/-- The words in front of the body of a function. -/
def headWords (params : List String) : List Word :=
  .mark .openParen :: (parameterWords params ++ [.mark .closeParen, .mark .arrow])

/-- What stands in front of the curly bracket that opens the body. -/
def headText (params : List String) : List Char :=
  ['('] ++ ((String.intercalate ", " params).toList ++ [')', ' ', '=', '>', ' '])

theorem head_shows {params : List String}
    (h : ∀ name ∈ params, ∃ c cs, Spelled (.identifier name) c cs) (rest : List Char) :
    Shows (headWords params) (headText params) ('\x7b' :: rest) := by
  have hspace : Shows [] [' '] ('\x7b' :: rest) := .separator rfl (.nil _)
  have harrow : Lexes ['=', '>'] (.mark .arrow) (' ' :: '\x7b' :: rest) :=
    mark_lexes_before .arrow (by decide) fun s hs => by
      cases hs
      decide
  have hclosing : Shows [.mark .closeParen, .mark .arrow] ([')'] ++ (' ' :: (['=', '>'] ++ [' '])))
      ('\x7b' :: rest) :=
    .word (mark_lexes (by decide) rfl _) (.separator rfl (.word harrow hspace))
  exact .word (mark_lexes (by decide) rfl _) (.append (parameters_show h _) hclosing)

/-- The text of a function, cut where its body begins. -/
theorem function_text_parts (params : List String) (body : List Char) :
    (Function.text ⟨params, String.ofList body⟩).toList =
      headText params ++ ('\x7b' :: (' ' :: (body ++ [' ', '\x7d']))) := by
  simp [Function.text, headText]

/-- An identifier among the tokens of a text is a word on its own. -/
theorem Scanned.identifier_spelled {p last : Position} {cs : List Char} {tokens : List Token}
    (h : Scanned p cs tokens last) {t : Token} (ht : t ∈ tokens) (hkind : t.kind = .identifier) :
    ∃ c cs, Spelled (.identifier t.text) c cs := by
  obtain ⟨xs, ys, rfl⟩ := List.append_of_mem ht
  obtain ⟨front, c, rest, -, -, hc, hsame, htext⟩ := h.fromToken
  rw [htext]
  exact Token.identifier_spelled hc (hsame ▸ hkind)

theorem implicit_spelled :
    ∀ name ∈ Grammar.implicitParams, ∃ c cs, Spelled (.identifier name) c cs := by
  intro name hname
  rcases List.mem_cons.1 hname with rfl | hname
  · exact ⟨'_', [], rfl, rfl, by decide, by decide, rfl, rfl⟩
  · obtain rfl := List.mem_singleton.1 hname
    exact ⟨'I', [], rfl, rfl, by decide, by decide, rfl, rfl⟩

/-- The tokens of the text of a function: the head, and a group of curly brackets that has the body
inside, with a space on either side. -/
structure HeadAndBody (text : String) (params : List String) (body : List Char)
    (head inside : List Token) (opening closing : Token) : Prop where
  tokens : Grammar.scanned text = head ++ opening :: (inside ++ [closing])
  head_words : head.map word = headWords params
  opening_kind : opening.kind = .openCurly
  closing_kind : closing.kind = .closeCurly
  balanced : Cursor.openAfter .openCurly .closeCurly 0 (inside.map Token.kind) = some 0
  body : Text.slice text.toList opening.span.last.offset.toNat closing.span.first.offset.toNat =
    ' ' :: (body ++ [' '])

theorem function_scanned {params : List String} {body : List Char}
    (hsmall : (Function.text ⟨params, String.ofList body⟩).utf8ByteSize < 2 ^ 32)
    (hparams : ∀ name ∈ params, ∃ c cs, Spelled (.identifier name) c cs) (hbody : Enclosable body) :
    ∃ head inside opening closing, HeadAndBody (Function.text ⟨params, String.ofList body⟩) params
      body head inside opening closing := by
  have htext := function_text_parts params body
  obtain ⟨p, hp⟩ : ∃ p, p = Position.start.advance (headText params) := ⟨_, rfl⟩
  obtain ⟨inside, last, hinside, hbalanced⟩ := hbody.scanned (p.advance ['\x7b'])
  have hmark : Lexes ['\x7b'] (.mark .openCurly) (' ' :: (body ++ [' ', '\x7d'])) :=
    mark_lexes (by decide) rfl _
  have hopening := hmark.scanned hinside
  rw [hp, List.singleton_append] at hopening
  obtain ⟨head, hwords, hscanned⟩ := (head_shows hparams _).scanned hopening
  rw [← htext] at hscanned
  refine ⟨head, inside, _, _, ((lex_scanned _).unique hscanned).1, hwords, rfl, rfl, hbalanced, ?_⟩
  have hparts : headText params ++ '\x7b' :: (' ' :: (body ++ [' ', '\x7d'])) =
      (headText params ++ ['\x7b']) ++ (' ' :: (body ++ [' '])) ++ ['\x7d'] := by simp
  rw [Text.utf8ByteSize_eq_size, htext, hparts, Text.size_append] at hsmall
  have hwhole : Text.size (headText params ++ ['\x7b'] ++ (' ' :: (body ++ [' ']))) < 2 ^ 32 := by
    omega
  have hfront : Text.size (headText params ++ ['\x7b']) < 2 ^ 32 := by
    rw [Text.size_append] at hwhole
    omega
  simp only [closeCurlyAt]
  rw [← Position.advance_append, ← Position.advance_append, Position.toNat_offset hfront,
    Position.toNat_offset hwhole, htext, hparts, Text.slice_append]

/-! ## Names of letters -/

/-- A name of letters. -/
def letters (k : Nat) : String := String.ofList (List.replicate (k + 1) 'a')

theorem size_letters (k : Nat) : Text.size (List.replicate k 'a') = k := by
  induction k with
  | zero => rfl
  | succ k ih => rw [List.replicate_succ, Text.size_cons, ih]; exact Nat.add_comm 1 k

theorem takeWhile_letters {k : Nat} {rest : List Char} (hrest : rest.head?.any isWordChar = false) :
    (List.replicate k 'a' ++ rest).takeWhile isWordChar = List.replicate k 'a' := by
  rw [List.takeWhile_append_of_pos fun c hc => (List.eq_of_mem_replicate hc).symm ▸ rfl]
  cases rest with
  | nil => simp
  | cons s rest => simp_all

/-- A word cannot be cut out if it ends where places have started over. -/
theorem next?_of_letters {front rest : List Char} {k : Nat} (hshort : k + 1 < 2 ^ 32)
    (hfront : Text.size front < 2 ^ 32) (hlong : 2 ^ 32 ≤ Text.size front + (k + 1))
    (hrest : rest.head?.any isWordChar = false) :
    next? 'a' (Source.after front (List.replicate (k + 1) 'a' ++ rest)) = none := by
  have hdice : diceAhead? (Source.after front (List.replicate (k + 1) 'a' ++ rest)) = none := by
    rw [diceAhead?_eq]
    show diceLength? ('a' :: (List.replicate k 'a' ++ rest)) = none
    simp [diceLength?, digitRun, show Decimal.isDigit 'a' = false by decide]
  have hlast : (Position.start.advance (front ++ List.replicate (k + 1) 'a')).offset.toNat =
      Text.size front + (k + 1) - 2 ^ 32 := by
    rw [Position.advance_offset, Text.size_append, size_letters]
    show (0 + UInt32.ofNat _).toNat = _
    rw [UInt32.zero_add, UInt32.toNat_ofNat', Nat.mod_eq_sub_mod hlong, Nat.mod_eq_of_lt (by omega)]
  unfold next?
  rw [if_neg (by decide), if_neg (by decide), hdice]
  dsimp only
  rw [if_pos (by decide), Source.skipWhile_after, takeWhile_letters hrest, cut?, Source.section?,
    if_neg]
  · rfl
  · rintro ⟨hle, -⟩
    rw [UInt32.le_iff_toNat_le] at hle
    have hfirst := Position.toNat_offset hfront
    have hplaces : (Position.start.advance front).offset.toNat ≤
      (Position.start.advance (front ++ List.replicate (k + 1) 'a')).offset.toNat := hle
    omega
theorem letters_not_blank (k : Nat) : ∀ c ∈ (letters k).toList, Text.isBlank c = false := by
  intro c hc
  rw [letters, String.toList_ofList] at hc
  rw [List.eq_of_mem_replicate hc]
  decide

theorem letters_spelled (k : Nat) : ∃ c cs, Spelled (.identifier (letters k)) c cs := by
  have hrun : (List.replicate (k + 1) 'a' ++ []).takeWhile isWordChar =
      List.replicate (k + 1) 'a' := takeWhile_letters rfl
  rw [List.append_nil] at hrun
  have hdice : diceLength? ('a' :: List.replicate k 'a') = none := by
    simp [diceLength?, digitRun, show Decimal.isDigit 'a' = false by decide]
  have hkind : wordKind (List.replicate (k + 1) 'a') = .identifier := by
    simp [wordKind, List.replicate_succ]
  have hlexeme : lexeme 'a' (List.replicate k 'a') =
      .plain .identifier (k + 1) (List.replicate (k + 1) 'a') := by
    unfold lexeme
    rw [if_neg (by decide), if_neg (by decide), hdice]
    dsimp only
    rw [if_pos (by decide), ← List.replicate_succ, hrun, hkind, List.length_replicate]
  refine ⟨'a', List.replicate k 'a', String.toList_ofList, rfl, by decide, by decide, ?_, ?_⟩
  · rw [hlexeme]
    rfl
  · rw [hlexeme, Lexeme.plain, List.drop_eq_nil_iff, List.length_replicate]

end Token

namespace Grammar

open Reader Attempt Token

variable {s : Setting} {c : Cursor} {ms : List String} {g : Cursor.Group} {params : List String}

theorem outcome_functionBody (hkind : c.kind = .openCurly) (hg : Cursor.groupAt? c.rest = some g) :
    outcome (functionBody params).run s ⟨c, ms⟩ =
      some (.ok (.function params (String.ofList (Text.trim
        (Text.slice s.source g.opening.span.last.offset.toNat
          g.closing.span.first.offset.toNat)))),
        ⟨c.skip (g.inside.length + 2), ms⟩) := by
  rw [functionBody, Attempt.outcome_here_bind, if_neg (not_not.2 hkind)]
  dsimp only
  rw [hg]
  rfl

theorem outcome_functionAfter {dangling : Bool}
    (hparams : Cursor.parameters? true g.inside = some (params, dangling))
    (hcomplete : (dangling && !params.isEmpty) = false) :
    outcome (functionAfter g).run s ⟨c, ms⟩ =
      outcome (functionBody params).run s ⟨c.skip (g.inside.length + 3), ms⟩ := by
  rw [functionAfter, Attempt.outcome_here_bind, hparams]
  dsimp only
  rw [hcomplete, if_neg Bool.false_ne_true]
  rfl

theorem outcome_parenthesized_function (read : Goal → Reader Expr)
    (hg : Cursor.groupAt? c.rest = some g) (harrow : g.followedBy .arrow = true) :
    outcome (parenthesized read).run s ⟨c, ms⟩ = outcome (functionAfter g).run s ⟨c, ms⟩ := by
  have hfound : (Cursor.groupAt? c.rest).filter (·.followedBy .arrow) = some g :=
    Option.filter_eq_some_iff.2 ⟨hg, harrow⟩
  rw [parenthesized, Attempt.outcome_here_bind, hfound]

theorem outcome_leaf_parenthesized {read : Goal → Reader Expr} {e : Expr} {q : Progress}
    (hkind : c.kind = .openParen)
    (h : outcome (parenthesized read).run s ⟨c, ms⟩ = some (.ok e, q)) :
    outcome (leaf read) s ⟨c, ms⟩ = some (e, q) := by
  obtain ⟨before, rest⟩ := c
  rw [kind_mk] at hkind
  cases rest with
  | nil => cases hkind
  | cons t rest =>
    have ht : t.kind = .openParen := hkind
    rw [outcome_leaf, leafAt]
    simp only [ht, outcome_settle, h, Option.bind_some]

/-! ## The text of a function -/

/-- The words between the parentheses of a function give its parameters. -/
theorem parameters?_words (params : List String) (ts : List Token)
    (h : ts.map Token.word = Token.parameterWords params) :
    ∃ dangling, Cursor.parameters? true ts = some (params, dangling) ∧
      (dangling && !params.isEmpty) = false := by
  induction params generalizing ts with
  | nil =>
    rw [Token.parameterWords, List.map_eq_nil_iff] at h
    subst h
    exact ⟨true, rfl, rfl⟩
  | cons name params ih =>
    cases params with
    | nil =>
      obtain ⟨t, rfl, ht⟩ := List.map_eq_singleton_iff.1 h
      have hkind : t.kind = .identifier := congrArg Word.kind ht
      have htext : t.text = name := congrArg Word.text ht
      exact ⟨false, by simp [Cursor.parameters?, hkind, htext], rfl⟩
    | cons next params =>
      obtain ⟨t, rest, rfl, ht, hrest⟩ := List.map_eq_cons_iff.1 h
      obtain ⟨u, ts, rfl, hu, hts⟩ := List.map_eq_cons_iff.1 hrest
      obtain ⟨dangling, hfound, hno⟩ := ih ts hts
      have hkind : t.kind = .identifier := congrArg Word.kind ht
      have htext : t.text = name := congrArg Word.text ht
      have hcomma : u.kind = .comma := congrArg Word.kind hu
      exact ⟨dangling, by simp [Cursor.parameters?, hkind, htext, hcomma, hfound], hno⟩

theorem parameterWords_kind (params : List String) :
    ∀ w ∈ Token.parameterWords params, w.kind = .identifier ∨ w.kind = .comma := by
  induction params with
  | nil => exact nofun
  | cons name params ih =>
    cases params with
    | nil => exact List.forall_mem_singleton.2 (.inl rfl)
    | cons next params =>
      exact List.forall_mem_cons.2 ⟨.inl rfl, List.forall_mem_cons.2 ⟨.inr rfl, ih⟩⟩

/-- A group that an opening bracket begins and its partner ends. -/
theorem groupAt?_balanced {opening closing : Token} {inside : List Token} {partner : TokenKind}
    (hpartner : opening.kind.closing? = some partner) (hclosing : closing.kind = partner)
    (hbalanced : Cursor.openAfter opening.kind partner 0 (inside.map Token.kind) = some 0)
    (after : List Token) :
    Cursor.groupAt? (opening :: (inside ++ closing :: after)) =
      some ⟨opening, inside, closing, after⟩ := by
  subst hclosing
  exact Cursor.groupAt?_iff.2 ⟨rfl, hpartner, hbalanced⟩

variable {text : String} {body : List Char} {head inside : List Token} {opening closing : Token}

/-- The parentheses of the head are a group with an arrow behind it, which holds the parameters. -/
theorem function_head (h : Token.HeadAndBody text params body head inside opening closing) :
    ∃ g dangling, Cursor.groupAt? (scanned text) = some g ∧ g.opening.kind = .openParen ∧
      g.followedBy .arrow = true ∧ Cursor.parameters? true g.inside = some (params, dangling) ∧
      (dangling && !params.isEmpty) = false ∧
      (scanned text).drop (g.inside.length + 3) = opening :: (inside ++ [closing]) := by
  have htokens := h.tokens
  -- the head is an opening parenthesis, names and commas, a closing parenthesis and an arrow
  obtain ⟨t, rest, rfl, ht, hrest⟩ := List.map_eq_cons_iff.1 h.head_words
  obtain ⟨names, tail, rfl, hnames, htail⟩ := List.map_eq_append_iff.1 hrest
  obtain ⟨u, tail, rfl, hu, htail⟩ := List.map_eq_cons_iff.1 htail
  obtain ⟨v, rfl, hv⟩ := List.map_eq_singleton_iff.1 htail
  have hopen : t.kind = .openParen := congrArg Word.kind ht
  have hclose : u.kind = .closeParen := congrArg Word.kind hu
  have harrow : v.kind = .arrow := congrArg Word.kind hv
  rw [List.cons_append, List.append_assoc] at htokens
  have hnone : ∀ kind ∈ names.map Token.kind, kind ≠ .openParen ∧ kind ≠ .closeParen := by
    intro kind hkind
    obtain ⟨name, hname, rfl⟩ := List.mem_map.1 hkind
    rcases parameterWords_kind params name.word (hnames ▸ List.mem_map_of_mem hname) with h | h
    all_goals
      rw [show name.kind = _ from h]
      decide
  have hpartner : t.kind.closing? = some .closeParen := by rw [hopen]; rfl
  have hgroup := groupAt?_balanced hpartner hclose
    (by rw [hopen]; exact Cursor.openAfter_neutral hnone 0) (v :: opening :: (inside ++ [closing]))
  obtain ⟨dangling, hparams, hcomplete⟩ := parameters?_words params names hnames
  refine ⟨_, dangling, htokens ▸ hgroup, hopen, ?_, hparams, hcomplete, ?_⟩
  · simp [Cursor.Group.followedBy, harrow]
  · rw [htokens]
    simp

/-- Its parentheses, and what follows them up to the end, are read as a function. -/
theorem outcome_function (h : Token.HeadAndBody text params body head inside opening closing)
    (read : Goal → Reader Expr) :
    ∃ q, outcome (parenthesized read).run ⟨text.toList, true⟩ ⟨.ofTokens (scanned text), []⟩ =
        some (.ok (.function params (String.ofList (Text.trim body))), q) ∧
      q.cursor.rest = [] ∧ q.mistakes = [] := by
  obtain ⟨g, dangling, hg, -, harrow, hparams, hcomplete, hdrop⟩ := function_head h
  have hrest : ((Cursor.ofTokens (scanned text)).skip (g.inside.length + 3)).rest =
      opening :: (inside ++ [closing]) := by
    rw [Cursor.rest_skip]
    exact hdrop
  have hkind : ((Cursor.ofTokens (scanned text)).skip (g.inside.length + 3)).kind = .openCurly := by
    rw [Cursor.kind_eq, hrest]
    exact h.opening_kind
  have hpartner : opening.kind.closing? = some .closeCurly := by rw [h.opening_kind]; rfl
  have hcurly := groupAt?_balanced hpartner h.closing_kind
    (by rw [h.opening_kind]; exact h.balanced) []
  rw [← hrest] at hcurly
  have htrim : Text.trim (' ' :: (body ++ [' '])) = Text.trim body := by
    rw [← List.singleton_append, Text.trim_blanks_append (List.forall_mem_singleton.2 (by decide)),
      Text.trim_append_blanks (List.forall_mem_singleton.2 (by decide))]
  refine ⟨⟨((Cursor.ofTokens (scanned text)).skip (g.inside.length + 3)).skip (inside.length + 2),
    []⟩, ?_, ?_, rfl⟩
  · rw [outcome_parenthesized_function _ hg harrow, outcome_functionAfter hparams hcomplete,
      outcome_functionBody hkind hcurly]
    dsimp only
    rw [h.body, htrim]
  · rw [Cursor.rest_skip, hrest, List.drop_eq_nil_iff]
    simp

/-- The text of a function is read as that function. -/
theorem parse_function (h : Token.HeadAndBody text params body head inside opening closing) :
    Script.ofText text = ⟨.function params (String.ofList (Text.trim body)), []⟩ := by
  obtain ⟨q, hfunction, hend, hmistakes⟩ := outcome_function h (readWithin (scanned text).length)
  obtain ⟨g, -, hg, hopen, -⟩ := function_head h
  have hparts := Cursor.groupAt?_parts hg
  have hkind : q.cursor.kind = .finish := by
    rw [Cursor.kind_eq, hend]
    rfl
  have hfirst : (Cursor.ofTokens (scanned text)).kind = .openParen := by
    rw [Cursor.kind_eq]
    show ((scanned text).head?.map Token.kind).getD .finish = _
    rw [hparts]
    exact hopen
  have hleaf := outcome_leaf_parenthesized hfirst hfunction
  have hpair := outcome_pair_of_unary (outcome_unary_of_suffixed (by rw [hfirst]; rfl)
    (by rw [hfirst]; decide) (outcome_suffixed hleaf (by rw [hkind]; decide)))
    (fun _ => by rw [hkind]; decide)
  have hoperators : ∀ l : Level, l.operators q.cursor.kind = none := by
    rw [hkind]
    exact Level.operators_finish
  have hconditional := outcome_conditional (by rw [hfirst]; decide)
    (outcome_disjunction_of_pair hpair hoperators) (by rw [hkind]; decide)
  rw [parse_eq_of_conditional ?_ hconditional hend, hmistakes]
  rw [hparts, kindOf, List.head?_cons, Option.map_some, hopen]
  rfl

/-! ## Longer texts -/

theorem trim_of_word {cs : List Char} (h : ∀ c ∈ cs, Text.isBlank c = false) :
    Text.trim cs = cs := by
  have hdrop : ∀ {xs : List Char}, (∀ c ∈ xs, Text.isBlank c = false) →
      xs.dropWhile Text.isBlank = xs := by
    intro xs hxs
    cases xs with
    | nil => rfl
    | cons x xs => rw [List.dropWhile_cons, hxs x List.mem_cons_self, if_neg Bool.false_ne_true]
  rw [Text.trim, hdrop h, hdrop fun c hc => h c (List.mem_reverse.1 hc), List.reverse_reverse]

/-- The tokens of the short form of a function are read as the function, whatever text is cut out as
its body. -/
theorem ofTokens_short_form (cs : List Char) (name : String) (a b c d : Span) :
    Script.ofTokensWithin? 5 cs
        [⟨.arrow, "=>", a⟩, ⟨.openCurly, "\x7b", b⟩, ⟨.identifier, name, c⟩,
          ⟨.closeCurly, "\x7d", d⟩] =
      some ⟨.function implicitParams (String.ofList (Text.trim
        (Text.slice cs b.last.offset.toNat d.first.offset.toNat))), []⟩ := rfl

/-- The short form of a function whose body is a name. -/
theorem parse_short_form {name : String} (hname : ∃ c cs, Spelled (.identifier name) c cs)
    (hword : ∀ c ∈ name.toList, Text.isBlank c = false)
    (hsmall : ("=>\x7b" ++ name ++ "\x7d").utf8ByteSize < 2 ^ 32) :
    Script.parse ("=>\x7b" ++ name ++ "\x7d") = some ⟨.function implicitParams name, []⟩ := by
  have htext : ("=>\x7b" ++ name ++ "\x7d").toList =
      ['=', '>'] ++ (['\x7b'] ++ (name.toList ++ ['\x7d'])) := by simp
  have harrow : Lexes ['=', '>'] (.mark .arrow) (['\x7b'] ++ (name.toList ++ ['\x7d'])) :=
    mark_lexes_before .arrow (by decide) fun s hs => by
      cases hs
      decide
  have hopening : Lexes ['\x7b'] (.mark .openCurly) (name.toList ++ ['\x7d']) :=
    mark_lexes (by decide) rfl _
  have hbody : Lexes name.toList (.identifier name) ['\x7d'] :=
    identifier_lexes hname fun s hs => by
      cases hs
      rfl
  have hclosing : Lexes ['\x7d'] (.mark .closeCurly) [] := mark_lexes (by decide) rfl _
  have hscanned := harrow.scanned (p := .start)
    (hopening.scanned (hbody.scanned (hclosing.scanned (.nil _))))
  rw [← htext] at hscanned
  have htokens : scanned ("=>\x7b" ++ name ++ "\x7d") = _ := ((lex_scanned _).unique hscanned).1
  have hread := more_nesting_changes_nothing
    (Nat.lt_succ_self (scanned ("=>\x7b" ++ name ++ "\x7d")).length)
  rw [htokens] at hread
  rw [Script.parse_of_small hsmall, ← hread]
  refine (ofTokens_short_form ..).trans ?_
  have hslice := Text.slice_append (['=', '>'] ++ ['\x7b']) name.toList ['\x7d']
  rw [Text.utf8ByteSize_eq_size, htext, ← List.append_assoc, ← List.append_assoc,
    Text.size_append] at hsmall
  rw [← Position.advance_append, ← Position.advance_append, Position.toNat_offset (by decide),
    Position.toNat_offset (by omega), htext, ← List.append_assoc, ← List.append_assoc, hslice,
    trim_of_word hword, String.ofList_toList]

/-- What stands in front of the body of the short form when it is printed. -/
def shortHead : List Char := ['(', '_', ',', ' ', 'I', ')', ' ', '=', '>', ' ', '\x7b', ' ']

theorem shortHead_eq : shortHead = headText implicitParams ++ (['\x7b'] ++ [' ']) := by decide

theorem shortHead_shows (rest : List Char) :
    Shows (headWords implicitParams ++ [.mark .openCurly]) shortHead rest := by
  have hspace : Shows [] [' '] rest := .separator rfl (.nil _)
  have hcurly : Shows [.mark .openCurly] (['\x7b'] ++ [' ']) rest :=
    .word (mark_lexes (by decide) rfl _) hspace
  rw [shortHead_eq]
  exact .append (head_shows implicit_spelled _) hcurly

/-- Where the body does not fit behind the head, places start over in it and it cannot be cut
out. -/
theorem parse_long_function {k : Nat} (hshort : k + 1 < 2 ^ 32)
    (hlong : 2 ^ 32 ≤ Text.size shortHead + (k + 1)) :
    Script.parse (Value.function ⟨implicitParams, letters k⟩).text = none := by
  have htext : (Value.function ⟨implicitParams, letters k⟩).text.toList =
      shortHead ++ (List.replicate (k + 1) 'a' ++ [' ', '\x7d']) := by
    refine (function_text_parts implicitParams (List.replicate (k + 1) 'a')).trans ?_
    rw [shortHead_eq]
    simp
  have hbody : ∀ n, 0 < n → scanFrom n
      (Source.after ([] ++ shortHead) (List.replicate (k + 1) 'a' ++ [' ', '\x7d'])) = none := by
    intro n hn
    obtain ⟨n, rfl⟩ := Nat.exists_eq_add_one_of_ne_zero (Nat.ne_zero_of_lt hn)
    have hnext : next? 'a' (Source.after shortHead
        (List.replicate (k + 1) 'a' ++ [' ', '\x7d'])) = none :=
      next?_of_letters hshort (by decide) hlong (by decide)
    rw [List.replicate_succ, List.cons_append] at hnext ⊢
    rw [scanFrom, Source.after]
    dsimp only
    rw [if_neg (by decide), ← Source.after, List.nil_append, hnext]
    rfl
  have hscan : Token.scan (Value.function ⟨implicitParams, letters k⟩).text = none := by
    have hplain : ∀ c ∈ shortHead, c ≠ '"' ∧ c ≠ '\x60' := by simp [shortHead]
    have hnone := (shortHead_shows _).scanFrom_eq_none hplain (by decide) hbody
    rw [Token.scan, Source.ofString_eq, htext]
    refine hnone _ ?_
    rw [List.length_append, List.length_append]
    simp
  rw [Script.parse, hscan]
  rfl

/-! ## Every function of a text -/

/-- Every function in the tree of a text is read back from its own text, without mistakes, if both
texts have fewer than 2 ^ 32 bytes. -/
theorem printed_functions_read_back (text : String) (hsmall : text.utf8ByteSize < 2 ^ 32) :
    ∃ script, Script.parse text = some script ∧
      ∀ params body, .function params body ∈ script.root.nodes →
        (Value.function ⟨params, body⟩).text.utf8ByteSize < 2 ^ 32 →
        Script.parse (Value.function ⟨params, body⟩).text =
          some ⟨.function params body, []⟩ := by
  refine ⟨_, Script.parse_of_small hsmall, fun params body h hrendering => ?_⟩
  have hread := more_nesting_changes_nothing (Nat.lt_succ_self (scanned text).length)
  obtain ⟨hnamed, front, rest, g, htokens, hg, hopening, rfl⟩ :=
    (Script.accounted hread).1.functions params body h
  have hscanned := Token.lex_scanned text.toList
  have hparams : ∀ name ∈ params, ∃ c cs, Token.Spelled (.identifier name) c cs := by
    rcases hnamed with rfl | hnamed
    · exact Token.implicit_spelled
    · intro name hname
      obtain ⟨t, ht, hkind, rfl⟩ := hnamed name hname
      exact hscanned.identifier_spelled ht hkind
  have hscanned' := hscanned
  rw [show (Token.lex text.toList).1 = front ++ rest from htokens] at hscanned'
  rw [Text.utf8ByteSize_eq_size] at hsmall
  obtain ⟨before, part, after, hparts, hlast, hfirst, hpart⟩ :=
    Token.enclosable_of_group hscanned' hsmall hg hopening
  have hslice : Text.slice text.toList g.opening.span.last.offset.toNat
      g.closing.span.first.offset.toNat = part := by
    rw [hparts, Text.size_append, Text.size_append] at hsmall
    rw [hlast, hfirst, Position.toNat_offset (by omega),
      Position.toNat_offset (by rw [Text.size_append]; omega), hparts, Text.slice_append]
  rw [hslice] at hrendering ⊢
  obtain ⟨head, inside, opening, closing, hfunction⟩ :=
    Token.function_scanned hrendering hparams hpart.trim
  have hparse := parse_function hfunction
  rw [Text.trim_trim] at hparse
  exact (Script.parse_of_small hrendering).trans (congrArg some hparse)

/-- The text of a function may be too long to be read, where that of the script was not. -/
theorem a_body_may_be_too_long_to_print :
    let body := String.ofList (List.replicate 4294967291 'a')
    ("=>\x7b" ++ body ++ "\x7d").utf8ByteSize < 2 ^ 32 ∧
      Script.parse ("=>\x7b" ++ body ++ "\x7d") = some ⟨.function ["_", "I"] body, []⟩ ∧
      Script.parse (Value.function ⟨["_", "I"], body⟩).text = none := by
  have hlong := parse_long_function (k := 4294967290) (by decide) (by decide)
  have hletters : ∀ k, k + 5 < 2 ^ 32 →
      ("=>\x7b" ++ letters k ++ "\x7d").utf8ByteSize < 2 ^ 32 := by
    intro k hk
    rw [String.utf8ByteSize_append, String.utf8ByteSize_append,
      Text.utf8ByteSize_eq_size (letters k), letters, String.toList_ofList, size_letters]
    show 3 + (k + 1) + 1 < _
    omega
  have hsmall := hletters 4294967290 (by decide)
  exact ⟨hsmall, parse_short_form (letters_spelled _) (letters_not_blank _) hsmall, hlong⟩

/-- A body is read back with brackets inside its literals, a character that begins no token, and
blanks at its ends that are no separators. -/
theorem a_body_of_many_kinds_is_read_back :
    let text := "f = ( a,b)=>\x7b \u00a0\"\\\"\x7d\" + \x60\x7b\x60 + é\u00a0\n\x7d; f(1, 2)"
    let body := "\"\\\"\x7d\" + \x60\x7b\x60 + é"
    text.utf8ByteSize < 2 ^ 32 ∧ ∃ script, Script.parse text = some script ∧
      .function ["a", "b"] body ∈ script.root.nodes ∧
      Script.parse (Value.function ⟨["a", "b"], body⟩).text =
        some ⟨.function ["a", "b"] body, []⟩ := by
  intro text body
  have hsmall : text.utf8ByteSize < 2 ^ 32 := by decide
  have hroot : (Script.ofText text).root =
      .sequence (.assign "f" .set (.function ["a", "b"] body))
        (.call "f" [.number 1, .number 2]) := by cbv
  obtain ⟨script, hparse, hback⟩ := printed_functions_read_back text hsmall
  obtain rfl : Script.ofText text = script :=
    Option.some.inj ((Script.parse_of_small hsmall).symm.trans hparse)
  have hmem : .function ["a", "b"] body ∈ (Script.ofText text).root.nodes := by
    rw [hroot]
    exact List.mem_cons_of_mem _ (List.mem_cons_of_mem _ List.mem_cons_self)
  exact ⟨hsmall, _, hparse, hmem, hback _ _ hmem (by decide)⟩

end Grammar

end DiceScript
