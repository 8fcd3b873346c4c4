import DiceScript.Proofs.Token.Words

/-!
Texts one after another. If the first has no literal that is left open and the second begins with
what ends a token, then the tokens of both together are those of the first and, further on, those of
the second.
-/

namespace DiceScript

namespace Position

/-- A place of a text, when the text begins at `p` and not at the start. -/
def later (p place : Position) : Position := ⟨p.line + (place.line - 1), p.offset + place.offset⟩

theorem later_start (p : Position) : p.later .start = p := by
  simp [later, start]

theorem start_later (p : Position) : start.later p = p := by
  simp [later, start]

theorem later_next (p place : Position) (c : Char) :
    p.later (place.next c) = (p.later place).next c := by
  by_cases hc : c = '\n'
  · simp only [later, next, hc, if_true, Position.mk.injEq]
    constructor <;> grind
  · simp only [later, next, hc, if_false, UInt32.add_assoc]

theorem later_advance (p place : Position) (cs : List Char) :
    p.later (place.advance cs) = (p.later place).advance cs := by
  induction cs generalizing place with
  | nil => rfl
  | cons c cs ih =>
    show p.later ((place.next c).advance cs) = ((p.later place).next c).advance cs
    rw [ih, later_next]

/-- A place behind some characters, when these stand behind others. -/
theorem later_advance_start (front cs : List Char) :
    (start.advance front).later (start.advance cs) = start.advance (front ++ cs) := by
  rw [later_advance, later_start, advance_append]

end Position

namespace Token

/-- The token at another place. -/
def relocated (place : Position → Position) (t : Token) : Token :=
  { t with span := ⟨place t.span.first, place t.span.last⟩ }

/-- The token of a text, when the text begins at `p` and not at the start. -/
def moved (p : Position) (t : Token) : Token :=
  { t with span := ⟨p.later t.span.first, p.later t.span.last⟩ }

@[simp]
theorem moved_kind (p : Position) (t : Token) : (t.moved p).kind = t.kind := rfl

@[simp]
theorem moved_text (p : Position) (t : Token) : (t.moved p).text = t.text := rfl

/-- A literal that is left open: it has an opening delimiter and reaches to the end. -/
def IsOpenLiteral (t : Token) : Prop :=
  t.kind = .unknown ∧ (t.text.toList.head? = some '"' ∨ t.text.toList.head? = some '\x60')

instance (t : Token) : Decidable t.IsOpenLiteral := inferInstanceAs (Decidable (_ ∧ _))

/-! ## Literals -/

/-- A literal that is closed does not depend on what follows it. -/
theorem literalAt?_append {delimiter : Char} (xs ys : List Char) {l : Literal}
    (h : literalAt? delimiter xs = some l) :
    literalAt? delimiter (xs ++ ys) = some { l with rest := l.rest ++ ys } := by
  fun_induction literalAt? delimiter xs generalizing l with
  | case1 => cases h
  | case2 rest =>
    cases h
    exact literalAt?_delimiter (rest ++ ys)
  | case3 => cases h
  -- a backslash and the character behind it, with or without a meaning of their own
  | case4 d rest hd hne ih =>
    obtain ⟨inner, hinner, rfl⟩ := Option.map_eq_some_iff.mp h
    rw [List.cons_append, List.cons_append, literalAt?_escaped hne hd, ih hinner]
    rfl
  | case5 d rest hd hne ih =>
    obtain ⟨inner, hinner, rfl⟩ := Option.map_eq_some_iff.mp h
    have hrest := ih hinner
    rw [List.cons_append] at hrest
    rw [List.cons_append, List.cons_append, literalAt?_unescaped hne hd, hrest]
    rfl
  | case6 c rest hne hslash ih =>
    obtain ⟨inner, hinner, rfl⟩ := Option.map_eq_some_iff.mp h
    rw [List.cons_append, literalAt?_ordinary hne hslash, ih hinner]
    rfl

/-- A literal is closed and does not depend on what follows it, or it is left open and reaches to
the end. -/
theorem delimited_append (kind : TokenKind) (delimiter : Char) (xs : List Char) :
    (∀ ys, Lexeme.delimited kind delimiter (xs ++ ys) =
      { Lexeme.delimited kind delimiter xs with
        rest := (Lexeme.delimited kind delimiter xs).rest ++ ys }) ∨
    Lexeme.delimited kind delimiter xs =
      ⟨.unknown, String.ofList (delimiter :: xs), delimiter :: xs, []⟩ := by
  unfold Lexeme.delimited
  cases hliteral : literalAt? delimiter xs with
  | some l =>
    refine .inl fun ys => ?_
    rw [literalAt?_append xs ys hliteral]
  | none =>
    refine .inr ?_
    simp [Lexeme.plain]

/-- The first token of a text is the same whatever follows a character that ends tokens, or it is a
literal that is left open. -/
theorem lexeme_append_or_open (c : Char) (xs : List Char) :
    (∀ s ys, endsToken s = true →
      lexeme c (xs ++ s :: ys) = { lexeme c xs with rest := (lexeme c xs).rest ++ s :: ys }) ∨
    ((c = '"' ∨ c = '\x60') ∧ lexeme c xs = ⟨.unknown, String.ofList (c :: xs), c :: xs, []⟩) := by
  by_cases hstring : c = '"'
  · subst hstring
    rcases delimited_append .string '"' xs with h | h
    · exact .inl fun s ys _ => h (s :: ys)
    · exact .inr ⟨.inl rfl, h⟩
  · by_cases hstored : c = '\x60'
    · subst hstored
      rcases delimited_append .stored '\x60' xs with h | h
      · exact .inl fun s ys _ => h (s :: ys)
      · exact .inr ⟨.inr rfl, h⟩
    · exact .inl fun s ys hs => lexeme_append hstring hstored hs xs ys

namespace Scanned

variable {p last last' : Position} {cs ys : List Char} {tokens tokens' : List Token}

/-- A text has one list of tokens. -/
theorem unique (h : Scanned p cs tokens last) (h' : Scanned p cs tokens' last') :
    tokens = tokens' ∧ last = last' := by
  induction h generalizing tokens' with
  | nil p =>
    cases h'
    exact ⟨rfl, rfl⟩
  | separator hc _ ih =>
    cases h' with
    | separator _ hrest => exact ih hrest
    | token hc' _ =>
      rw [hc] at hc'
      cases hc'
  | token hc _ ih =>
    cases h' with
    | separator hc' _ =>
      rw [hc] at hc'
      cases hc'
    | token _ hrest =>
      obtain ⟨rfl, rfl⟩ := ih hrest
      exact ⟨rfl, rfl⟩

/-- Separators in front of a text are no part of its tokens. -/
theorem behind_separators (hcs : ∀ c ∈ cs, isSeparator c = true)
    (h : Scanned (p.advance cs) ys tokens last) : Scanned p (cs ++ ys) tokens last := by
  induction cs generalizing p with
  | nil => exact h
  | cons c cs ih =>
    obtain ⟨hc, hcs⟩ := List.forall_mem_cons.1 hcs
    exact .separator hc (ih hcs h)

/-- A text that begins elsewhere has the same tokens, at other places. What is asked of the places
is that reading a character leads from one to the next here as it does there. -/
theorem relocated {place : Position → Position}
    (hplace : ∀ p cs, place (p.advance cs) = (place p).advance cs)
    (h : Scanned p cs tokens last) :
    Scanned (place p) cs (tokens.map (Token.relocated place)) (place last) := by
  induction h with
  | nil p => exact .nil _
  | @separator p last c cs tokens hc _ ih =>
    have hnext : place (p.next c) = (place p).next c := hplace p [c]
    rw [hnext] at ih
    exact .separator hc ih
  | @token p last c cs tokens hc _ ih =>
    have hspan := hplace p (lexeme c cs).written
    rw [hspan] at ih
    have htoken := Scanned.token hc ih
    simpa only [List.map_cons, Token.relocated, hspan] using htoken

theorem moved (h : Scanned p cs tokens last) (q : Position) :
    Scanned (q.later p) cs (tokens.map (Token.moved q)) (q.later last) :=
  h.relocated (Position.later_advance q)

/-- The tokens of a text that is left without an open literal, and of one that begins with what ends
a token, are the tokens of both together. -/
theorem append (h : Scanned p cs tokens last) (hopen : ∀ t ∈ tokens.getLast?, ¬ t.IsOpenLiteral)
    {s : Char} (hs : endsToken s = true) (h' : Scanned last (s :: ys) tokens' last') :
    Scanned p (cs ++ s :: ys) (tokens ++ tokens') last' := by
  induction h with
  | nil p => exact h'
  | separator hc _ ih => exact .separator hc (ih hopen h')
  | @token p last c cs tokens hc hrest ih =>
    rcases lexeme_append_or_open c cs with happend | ⟨hdelimiter, hlexeme⟩
    · have hnext := ih (fun t ht => hopen t (List.mem_getLast?_cons ht)) h'
      have hlexeme := happend s ys hs
      rw [List.cons_append, List.cons_append]
      have hrest' : Scanned (p.advance (lexeme c (cs ++ s :: ys)).written)
          (lexeme c (cs ++ s :: ys)).rest (tokens ++ tokens') last' := by
        rw [hlexeme]
        exact hnext
      simpa only [hlexeme] using Scanned.token hc hrest'
    -- a literal that is left open reaches to the end, so it is the last token
    · simp only [hlexeme] at hrest hopen
      cases hrest
      refine absurd ⟨rfl, ?_⟩ (hopen _ rfl)
      simpa using hdelimiter

/-- The text between two tokens is the same wherever the text stands, as long as places can be told
apart. -/
theorem slice_inside (h : Scanned .start cs tokens last) {xs zs : List Token} {a b : Token}
    {inside : List Token} (htokens : tokens = xs ++ a :: (inside ++ b :: zs))
    {front back : List Char} (hsmall : Text.size (front ++ cs ++ back) < 2 ^ 32) :
    Text.slice (front ++ cs ++ back)
        ((Position.start.advance front).later a.span.last).offset.toNat
        ((Position.start.advance front).later b.span.first).offset.toNat =
      Text.slice cs a.span.last.offset.toNat b.span.first.offset.toNat := by
  obtain ⟨before, middle, after, rfl, hlast, hfirst⟩ := h.between htokens
  have hhere := Text.slice_append (front ++ before) middle (after ++ back)
  have hthere := Text.slice_append before middle after
  simp only [Text.size_append] at hsmall
  have hbefore : Text.size before < 2 ^ 32 := by omega
  have hmiddle : Text.size (before ++ middle) < 2 ^ 32 := by rw [Text.size_append]; omega
  have hfront : Text.size (front ++ before) < 2 ^ 32 := by rw [Text.size_append]; omega
  have hwhole : Text.size (front ++ (before ++ middle)) < 2 ^ 32 := by
    rw [Text.size_append, Text.size_append]
    omega
  rw [hlast, hfirst, Position.later_advance_start, Position.later_advance_start,
    Position.toNat_offset hbefore, Position.toNat_offset hmiddle, Position.toNat_offset hfront,
    Position.toNat_offset hwhole, hthere]
  simpa only [List.append_assoc] using hhere

end Scanned

theorem lexed_eq_lex (text : String) :
    lexed text = (lex text.toList).1 ++ [finishAt (lex text.toList).2] := rfl

/-- The tokens of a text are those that it has when it is read from its start. -/
theorem lexed_eq_iff {text : String} {tokens : List Token} {last : Position} :
    lexed text = tokens ++ [finishAt last] ↔ Scanned .start text.toList tokens last := by
  have hscanned := lex_scanned text.toList
  rw [lexed_eq_lex]
  constructor
  · intro h
    obtain ⟨htokens, hfinish⟩ := List.append_inj' h rfl
    have hlast : (lex text.toList).2 = last :=
      congrArg (fun t => t.span.last) (List.singleton_inj.1 hfinish)
    rwa [htokens, hlast] at hscanned
  · intro h
    obtain ⟨htokens, hlast⟩ := hscanned.unique h
    rw [htokens, hlast]

/-! ## A semicolon between two texts -/

theorem lexeme_semicolon (cs : List Char) : lexeme ';' cs = ⟨.semicolon, ";", [';'], cs⟩ := by
  have hdice : diceLength? (';' :: cs) = none := by
    simp [diceLength?, digitRun, show Decimal.isDigit ';' = false by decide]
  have hmark : markAt? (';' :: cs) = some ([';'], .semicolon) := by
    simp [markAt?, marks, List.find?, List.isPrefixOf]
  unfold lexeme
  dsimp only
  rw [if_neg (by decide), if_neg (by decide), hdice, hmark]
  simp [Lexeme.plain, show isWordStart ';' = false by decide,
    show Decimal.isDigit ';' = false by decide]

/-- The semicolon at a place. -/
def semicolonAt (p : Position) : Token := ⟨.semicolon, ";", ⟨p, p.next ';'⟩⟩

/-- The tokens of two texts with a semicolon between them. -/
theorem scan_joined (xs ys : List Char)
    (hopen : ∀ t ∈ (lex xs).1.getLast?, ¬ t.IsOpenLiteral) :
    (lex (xs ++ ';' :: ys)).1 =
      (lex xs).1 ++ semicolonAt (lex xs).2 :: (lex ys).1.map (moved ((lex xs).2.next ';')) := by
  have hsecond := (lex_scanned ys).moved ((lex xs).2.next ';')
  rw [Position.later_start] at hsecond
  have hmark : Scanned (lex xs).2 (';' :: ys)
      (semicolonAt (lex xs).2 :: (lex ys).1.map (moved ((lex xs).2.next ';')))
      (((lex xs).2.next ';').later (lex ys).2) := by
    have hlexeme := lexeme_semicolon ys
    have hrest : Scanned ((lex xs).2.advance (lexeme ';' ys).written) (lexeme ';' ys).rest
        ((lex ys).1.map (moved ((lex xs).2.next ';')))
        (((lex xs).2.next ';').later (lex ys).2) := by
      rw [hlexeme]
      exact hsecond
    have htoken := Scanned.token (show isSeparator ';' = false by decide) hrest
    simp only [hlexeme] at htoken
    exact htoken
  exact ((lex_scanned _).unique ((lex_scanned xs).append hopen (by decide) hmark)).1

end Token

end DiceScript
