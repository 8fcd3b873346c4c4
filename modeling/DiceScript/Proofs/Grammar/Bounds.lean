import DiceScript.Proofs.Grammar.Forward
import DiceScript.Proofs.Token.Layout

/-!
Cursors as indices. A cursor in the tokens of a text stands at an index that is at most that of the
mark of the end, and everything that is read around it lies between the first token and that mark.
A bracketed group is told by counting the brackets of its kind that are open.
-/

namespace DiceScript

namespace Cursor

variable {c d : Cursor} {tokens : List Token}

/-! ## Positions -/

/-- The index of the next token. -/
def position (c : Cursor) : Nat := c.before.length

/-- The cursor stands in these tokens. -/
def Within (c : Cursor) (tokens : List Token) : Prop := c.before.reverse ++ c.rest = tokens

theorem within_ofTokens (tokens : List Token) : (ofTokens tokens).Within tokens := rfl

theorem Within.ahead (h : c.Within tokens) (hd : c.Ahead d) : d.Within tokens := by
  obtain ⟨passed, hrest, hbefore⟩ := hd
  rw [Within, hrest] at h
  rw [Within, hbefore, List.reverse_append, List.reverse_reverse, List.append_assoc, h]

theorem Ahead.position_le (h : c.Ahead d) : c.position ≤ d.position := by
  obtain ⟨passed, -, hbefore⟩ := h
  rw [position, position, hbefore, List.length_append]
  omega

theorem Within.length_eq (h : c.Within tokens) :
    c.position + c.rest.length = tokens.length := by
  rw [← h, List.length_append, List.length_reverse, position]

theorem Within.remaining_le (h : c.Within tokens) : c.rest.length ≤ tokens.length := by
  have hlength := h.length_eq
  omega

theorem Within.drop_position (h : c.Within tokens) : tokens.drop c.position = c.rest := by
  rw [← h, position, ← List.length_reverse, List.drop_left]

theorem Within.rest_eq_nil (h : c.Within tokens) (htokens : ∀ t ∈ tokens, t.kind ≠ .finish)
    (hkind : c.kind = .finish) : c.rest = [] := by
  cases hrest : c.rest with
  | nil => rfl
  | cons token rest =>
    have hmem : token ∈ tokens := by
      rw [← h, hrest]
      simp
    refine absurd ?_ (htokens token hmem)
    simpa [kind, kindAt, hrest] using hkind

theorem rest_skip (c : Cursor) (n : Nat) : (c.skip n).rest = c.rest.drop n := by
  induction n generalizing c with
  | zero => rfl
  | succ n ih =>
    rw [skip, ih]
    cases hrest : c.rest <;> simp [advance, hrest]

theorem Within.position_skip (h : c.Within tokens) {n : Nat} (hn : n ≤ c.rest.length) :
    (c.skip n).position = c.position + n := by
  have hskip := (h.ahead (ahead_skip c n)).length_eq
  have hlength := h.length_eq
  rw [rest_skip, List.length_drop] at hskip
  omega

/-! ## The next token -/

/-- The token at the index of a cursor is the one that the cursor shows, and at the end the mark. -/
theorem Within.next_token (h : c.Within tokens) {last : Token} (hlast : last.kind = .finish) :
    ∃ token, (tokens ++ [last])[c.position]? = some token ∧ token.kind = c.kind := by
  have hdrop : (tokens ++ [last]).drop c.position = c.rest ++ [last] := by
    have hle : c.position ≤ tokens.length := by
      have hlength := h.length_eq
      omega
    rw [List.drop_append_of_le_length hle, h.drop_position]
  have hget : (tokens ++ [last])[c.position]? = (c.rest ++ [last])[0]? := by
    rw [← hdrop, List.getElem?_drop, Nat.add_zero]
  rw [hget]
  cases hrest : c.rest with
  | nil => exact ⟨last, rfl, by simp [kind, kindAt, hrest, hlast]⟩
  | cons token rest => exact ⟨token, rfl, by simp [kind, kindAt, hrest]⟩

/-! ## Windows -/

/-- Where the window around an index begins. -/
def windowFirst (index : Nat) : Nat := index - 2

/-- Where the window around an index ends. -/
def windowLast (index count : Nat) : Nat := min (index + 3) count

/-- The tokens from one index up to another, as messages show them. -/
def shownBetween (tokens : List Token) (first last : Nat) : String :=
  String.intercalate " "
    ((((tokens.take last).drop first).map shown).filter fun text => !text.isEmpty)

theorem shown_finish {last : Token} (hlast : last.kind = .finish) : shown last = "" := by
  simp [shown, Token.display, hlast]

theorem Within.window_eq (h : c.Within tokens) {last : Token} (hlast : last.kind = .finish) :
    c.window = shownBetween (tokens ++ [last]) (windowFirst c.position)
      (windowLast c.position (tokens.length + 1)) := by
  have hlength := h.length_eq
  -- up to the end of the window stand the tokens read, at most three more, and the mark if these
  -- are fewer than three
  have htake : (tokens ++ [last]).take (windowLast c.position (tokens.length + 1)) =
      c.before.reverse ++ (c.rest.take 3 ++ [last].take (3 - c.rest.length)) := by
    have hindex : windowLast c.position (tokens.length + 1) =
        c.before.reverse.length + min 3 (c.rest.length + 1) := by
      rw [windowLast, List.length_reverse]
      show _ = c.position + _
      omega
    rw [hindex, ← h, List.append_assoc, List.take_length_add_append]
    rw [show min 3 (c.rest.length + 1) = min 3 (c.rest ++ [last]).length by simp,
      ← List.take_eq_take_min, List.take_append]
  have hdrop : c.before.reverse.drop (windowFirst c.position) = (c.before.take 2).reverse := by
    rw [windowFirst, position, List.reverse_take]
  have hle : windowFirst c.position ≤ c.before.reverse.length := by
    rw [windowFirst, List.length_reverse]
    show _ ≤ c.position
    omega
  -- the mark of the end is shown as nothing
  have hshown : ((([last].take (3 - c.rest.length)).map shown).filter
      fun text => !text.isEmpty) = [] := by
    rw [List.filter_eq_nil_iff]
    intro text htext
    obtain ⟨token, htoken, rfl⟩ := List.mem_map.mp htext
    rw [List.mem_singleton.mp (List.mem_of_mem_take htoken), shown_finish hlast]
    decide
  rw [window, shownBetween, htake, List.drop_append_of_le_length hle, hdrop]
  simp only [List.map_append, List.filter_append, hshown, List.append_nil]

/-! ## Open brackets -/

/-- How many brackets of one kind are open behind tokens of these kinds. There is no number if one
is closed that was not open. -/
def openAfter (opening closing : TokenKind) : Nat → List TokenKind → Option Nat
  | depth, [] => some depth
  | depth, kind :: kinds =>
    if kind = opening then openAfter opening closing (depth + 1) kinds
    else if kind = closing then
      if depth = 0 then none else openAfter opening closing (depth - 1) kinds
    else openAfter opening closing depth kinds

/-- Splits tokens behind the first one. -/
def consInside (token : Token) (parts : List Token × List Token) : List Token × List Token :=
  (token :: parts.1, parts.2)

variable {opening closing : TokenKind} {depth k : Nat} {ts xs inside after : List Token}

theorem openAfter_append (depth : Nat) (xs ys : List TokenKind) :
    openAfter opening closing depth (xs ++ ys) =
      (openAfter opening closing depth xs).bind fun k => openAfter opening closing k ys := by
  induction xs generalizing depth with
  | nil => rfl
  | cons kind xs ih =>
    simp only [List.cons_append, openAfter, ih]
    split
    · rfl
    · split
      · split <;> rfl
      · rfl

/-- Tokens that are no brackets of the kind change nothing. -/
theorem openAfter_neutral {kinds : List TokenKind}
    (h : ∀ kind ∈ kinds, kind ≠ opening ∧ kind ≠ closing) (depth : Nat) :
    openAfter opening closing depth kinds = some depth := by
  induction kinds with
  | nil => rfl
  | cons kind kinds ih =>
    obtain ⟨hkind, hkinds⟩ := List.forall_mem_cons.1 h
    rw [openAfter, if_neg hkind.1, if_neg hkind.2, ih hkinds]

/-- One token more is looked at. -/
theorem splitAtClosing_cons (opening closing : TokenKind) (depth : Nat) (token : Token)
    (rest : List Token) :
    splitAtClosing opening closing depth (token :: rest) =
      if token.kind = opening then
        (splitAtClosing opening closing (depth + 1) rest).map (consInside token)
      else if token.kind = closing then
        if depth = 0 then some ([], token :: rest)
        else (splitAtClosing opening closing (depth - 1) rest).map (consInside token)
      else (splitAtClosing opening closing depth rest).map (consInside token) := by
  conv_lhs => unfold splitAtClosing
  cases depth <;> rfl

/-- Tokens in which no bracket is closed that was not open go inside. -/
theorem splitAtClosing_of_openAfter
    (h : openAfter opening closing depth (xs.map Token.kind) = some k) (ys : List Token) :
    splitAtClosing opening closing depth (xs ++ ys) =
      (splitAtClosing opening closing k ys).map fun parts => (xs ++ parts.1, parts.2) := by
  induction xs generalizing depth with
  | nil =>
    cases h
    simp
  | cons token xs ih =>
    have hcons : ∀ {d}, openAfter opening closing d (xs.map Token.kind) = some k →
        (splitAtClosing opening closing d (xs ++ ys)).map (consInside token) =
          (splitAtClosing opening closing k ys).map
            fun parts => (token :: xs ++ parts.1, parts.2) := by
      intro d hd
      rw [ih hd, Option.map_map]
      rfl
    rw [List.map_cons, openAfter] at h
    rw [List.cons_append, splitAtClosing_cons]
    split_ifs at h ⊢
    · exact hcons h
    · exact hcons h
    · exact hcons h

/-- What is split off closes all its brackets, and the one that is looked for stands behind it. -/
theorem splitAtClosing_parts
    (h : splitAtClosing opening closing depth ts = some (inside, after)) :
    ts = inside ++ after ∧ openAfter opening closing depth (inside.map Token.kind) = some 0 ∧
      ∃ bracket rest, after = bracket :: rest ∧ bracket.kind = closing := by
  induction ts generalizing depth inside with
  | nil => cases h
  | cons token ts ih =>
    -- the token goes inside, whatever it does to the depth
    have hcons : ∀ {d}, (∀ kinds, openAfter opening closing depth (token.kind :: kinds) =
          openAfter opening closing d kinds) →
        (splitAtClosing opening closing d ts).map (consInside token) = some (inside, after) →
        token :: ts = inside ++ after ∧
          openAfter opening closing depth (inside.map Token.kind) = some 0 ∧
          ∃ bracket rest, after = bracket :: rest ∧ bracket.kind = closing := by
      intro d hd hmap
      obtain ⟨⟨xs, ys⟩, hsplit, heq⟩ := Option.map_eq_some_iff.mp hmap
      cases heq
      obtain ⟨rfl, hopen, hafter⟩ := ih hsplit
      exact ⟨rfl, (hd _).trans hopen, hafter⟩
    rw [splitAtClosing_cons] at h
    split_ifs at h with hopening hclosing hdepth
    · exact hcons (fun kinds => by rw [openAfter, if_pos hopening]) h
    · cases h
      exact ⟨rfl, congrArg some hdepth, token, ts, rfl, hclosing⟩
    · exact hcons (fun kinds => by rw [openAfter, if_neg hopening, if_pos hclosing,
        if_neg hdepth]) h
    · exact hcons (fun kinds => by rw [openAfter, if_neg hopening, if_neg hclosing]) h

/-- Where the bracket is not found, some brackets are still open at the end. -/
theorem openAfter_of_splitAtClosing_none
    (h : splitAtClosing opening closing depth ts = none) :
    ∃ k, openAfter opening closing depth (ts.map Token.kind) = some k := by
  induction ts generalizing depth with
  | nil => exact ⟨depth, rfl⟩
  | cons token ts ih =>
    rw [splitAtClosing_cons] at h
    rw [List.map_cons, openAfter]
    split_ifs at h ⊢
    · exact ih (Option.map_eq_none_iff.1 h)
    · exact ih (Option.map_eq_none_iff.1 h)
    · exact ih (Option.map_eq_none_iff.1 h)

/-! ## Groups -/

theorem closing?_ne (h : opening.closing? = some closing) :
    opening ≠ closing ∧ opening ≠ .finish ∧ closing ≠ .finish := by
  cases opening <;> cases h <;> decide

/-- A group is made of its brackets, what stands inside and what stands after; inside, all brackets
of its kind are closed. -/
theorem groupAt?_iff {g : Group} :
    groupAt? ts = some g ↔
      ts = g.opening :: (g.inside ++ g.closing :: g.after) ∧
        g.opening.kind.closing? = some g.closing.kind ∧
        openAfter g.opening.kind g.closing.kind 0 (g.inside.map Token.kind) = some 0 := by
  obtain ⟨bracket, inside, partner, after⟩ := g
  cases ts with
  | nil => exact iff_of_false nofun fun h => nomatch h.1
  | cons token rest =>
    simp only [groupAt?, Option.bind_eq_bind, Option.bind_eq_some_iff]
    constructor
    · rintro ⟨closing, hclosing, ⟨xs, ys⟩, hsplit, hg⟩
      obtain ⟨rfl, hopen, t, zs, rfl, rfl⟩ := splitAtClosing_parts hsplit
      cases hg
      exact ⟨rfl, hclosing, hopen⟩
    · rintro ⟨hparts, hclosing, hopen⟩
      obtain ⟨rfl, rfl⟩ := List.cons.inj hparts
      refine ⟨partner.kind, hclosing, (inside, partner :: after), ?_, rfl⟩
      rw [splitAtClosing_of_openAfter hopen, splitAtClosing_cons,
        if_neg (closing?_ne hclosing).1.symm, if_pos rfl, if_pos rfl, Option.map_some,
        List.append_nil]

theorem groupAt?_parts {g : Group} (h : groupAt? ts = some g) :
    ts = g.opening :: (g.inside ++ g.closing :: g.after) := (groupAt?_iff.1 h).1

theorem closing_of_groupAt? {g : Group} (h : groupAt? ts = some g) :
    g.opening.kind.closing? = some g.closing.kind := (groupAt?_iff.1 h).2.1

theorem kind_of_closing? {g : Group} (h : groupAt? ts = some g)
    (hclosing : g.opening.kind.closing? = some closing) : g.closing.kind = closing :=
  Option.some.inj ((closing_of_groupAt? h).symm.trans hclosing)

theorem kind_of_groupAt? {g : Group} (h : groupAt? c.rest = some g) : c.kind = g.opening.kind := by
  rw [kind_eq, groupAt?_parts h]
  rfl

/-- Where a bracket is not closed, it or others of its kind are still open at the end. -/
theorem groupAt?_eq_none_iff {token : Token} {rest : List Token}
    (hclosing : token.kind.closing? = some closing) :
    groupAt? (token :: rest) = none ↔
      ∃ k, openAfter token.kind closing 0 (rest.map Token.kind) = some k := by
  simp only [groupAt?, hclosing, Option.bind_eq_bind, Option.bind_some]
  cases hsplit : splitAtClosing token.kind closing 0 rest with
  | none => exact iff_of_true rfl (openAfter_of_splitAtClosing_none hsplit)
  | some parts =>
    obtain ⟨xs, ys⟩ := parts
    obtain ⟨rfl, -, bracket, zs, rfl, -⟩ := splitAtClosing_parts hsplit
    refine iff_of_false nofun fun ⟨k, hk⟩ => ?_
    have hnone := splitAtClosing_of_openAfter hk []
    rw [List.append_nil, hsplit] at hnone
    cases hnone

/-- Only the kinds of tokens tell whether a bracket is closed. -/
theorem groupAt?_map_none {f : Token → Token} (hf : ∀ t, (f t).kind = t.kind)
    (h : groupAt? ts = none) : groupAt? (ts.map f) = none := by
  cases ts with
  | nil => rfl
  | cons token rest =>
    cases hclosing : token.kind.closing? with
    | none => simp [groupAt?, hf, hclosing]
    | some closing =>
      obtain ⟨k, hk⟩ := (groupAt?_eq_none_iff hclosing).1 h
      rw [List.map_cons, groupAt?_eq_none_iff (by rw [hf, hclosing]), hf, List.map_map]
      exact ⟨k, by simpa only [Function.comp_def, hf] using hk⟩

/-- The index of the bracket that closes a group. -/
def Group.closingIndex (g : Group) (c : Cursor) : Nat := c.position + g.inside.length + 1

theorem Group.slice_eq {g : Group} (h : c.Within tokens) (hg : groupAt? c.rest = some g) :
    (tokens.take (g.closingIndex c)).drop (c.position + 1) = g.inside := by
  have hrest := groupAt?_parts hg
  have hindex : g.closingIndex c = c.before.reverse.length + (1 + g.inside.length) := by
    rw [closingIndex, List.length_reverse, position]
    omega
  have hstart : c.position + 1 = c.before.reverse.length + 1 := by
    rw [List.length_reverse, position]
  rw [hindex, hstart, ← h, hrest, List.take_length_add_append, List.drop_length_add_append]
  simp [Nat.add_comm 1]

theorem Group.closing_eq {g : Group} (h : c.Within tokens) (hg : groupAt? c.rest = some g) :
    tokens[g.closingIndex c]? = some g.closing := by
  have hrest := groupAt?_parts hg
  have hindex : g.closingIndex c = c.position + (g.inside.length + 1) := Nat.add_assoc _ _ _
  rw [hindex, ← List.getElem?_drop, h.drop_position, hrest, List.getElem?_cons_succ,
    List.getElem?_append_right (Nat.le_refl _), Nat.sub_self]
  rfl

/-- What stands in a group, after its brackets or behind an arrow lies among the tokens. -/
theorem Group.length_le {g : Group} (h : c.Within tokens) (hg : groupAt? c.rest = some g) :
    g.closingIndex c + 1 + g.after.length = tokens.length := by
  have hlength := h.length_eq
  have hrest := congrArg List.length (groupAt?_parts hg)
  simp only [List.length_cons, List.length_append] at hrest
  rw [closingIndex]
  omega

theorem Group.followedBy_iff {g : Group} {kind : TokenKind} :
    g.followedBy kind = true ↔ ∃ t rest, g.after = t :: rest ∧ t.kind = kind := by
  unfold followedBy
  cases g.after with
  | nil => simp
  | cons t rest => simp

/-! ## Counting brackets -/

/-- The number of tokens in front of the bracket that brings a counter of open brackets back to
zero, if there is one. Without an outer result the counter leaves the 32 bits it has. -/
def countToClosing (opening closing : TokenKind) : Nat → List Token → Option (Option Nat)
  | _, [] => some none
  | depth, token :: rest =>
    if token.kind = opening then
      if depth + 1 < 2 ^ 32 then
        (countToClosing opening closing (depth + 1) rest).map (Option.map (· + 1))
      else none
    else if token.kind = closing then
      if depth = 0 then none
      else if depth = 1 then some (some 0)
      else (countToClosing opening closing (depth - 1) rest).map (Option.map (· + 1))
    else (countToClosing opening closing depth rest).map (Option.map (· + 1))

theorem countToClosing_eq_split {opening closing : TokenKind} {last : Token}
    (hopening : last.kind ≠ opening) (hclosing : last.kind ≠ closing) (ts : List Token)
    (depth : Nat) (hbound : depth + 1 + ts.length < 2 ^ 32) :
    countToClosing opening closing (depth + 1) (ts ++ [last]) =
      some ((splitAtClosing opening closing depth ts).map fun parts => parts.1.length) := by
  induction ts generalizing depth with
  | nil => simp [countToClosing, splitAtClosing, hopening, hclosing]
  | cons token ts ih =>
    -- both sides go on with the next token, and both add one to what they find
    have hcons : ∀ k, k + 1 + ts.length < 2 ^ 32 →
        (countToClosing opening closing (k + 1) (ts ++ [last])).map (Option.map (· + 1)) =
          some (((splitAtClosing opening closing k ts).map
            fun parts => (token :: parts.1, parts.2)).map fun parts => parts.1.length) := by
      intro k hk
      rw [ih k hk]
      cases splitAtClosing opening closing k ts <;> rfl
    rw [List.length_cons] at hbound
    rw [List.cons_append]
    unfold countToClosing splitAtClosing
    split
    · rw [if_pos (by omega)]
      exact hcons (depth + 1) (by omega)
    · split
      · cases depth with
        | zero => rfl
        | succ depth =>
          rw [if_neg (by omega), if_neg (by omega)]
          exact hcons depth (by omega)
      · exact hcons depth (by omega)

/-- Counting from an opening bracket stays in its 32 bits, and comes to the bracket that closes the
group. -/
theorem countToClosing_eq_group {ts : List Token} {opening closing : TokenKind} {last : Token}
    (hkind : (ts.head?.map Token.kind) = some opening) (hclosing : opening.closing? = some closing)
    (hlast : last.kind = .finish) (hbound : ts.length < 2 ^ 32) :
    countToClosing opening closing 0 (ts ++ [last]) =
      some ((groupAt? ts).map fun g => g.inside.length + 1) := by
  cases ts with
  | nil => cases hkind
  | cons token rest =>
    obtain ⟨-, hopen, hclose⟩ := closing?_ne hclosing
    have htoken : token.kind = opening := by simpa using hkind
    rw [List.length_cons] at hbound
    rw [List.cons_append]
    unfold countToClosing
    rw [if_pos htoken, if_pos (by omega),
      countToClosing_eq_split (by rwa [hlast, ne_comm]) (by rwa [hlast, ne_comm]) rest 0 (by omega)]
    simp only [groupAt?, htoken, hclosing, Option.bind_eq_bind, Option.bind_some]
    cases hsplit : splitAtClosing opening closing 0 rest with
    | none => rfl
    | some parts =>
      obtain ⟨inside, after⟩ := parts
      cases after with
      -- a split that succeeds leaves the closing bracket
      | nil =>
        obtain ⟨-, -, bracket, rest, hafter, -⟩ := splitAtClosing_parts hsplit
        cases hafter
      | cons bracket after => rfl

end Cursor

end DiceScript
