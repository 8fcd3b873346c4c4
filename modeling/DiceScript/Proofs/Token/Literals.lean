import DiceScript.Proofs.Token.Locality
import DiceScript.Proofs.Token.Written

/-!
Literals as they are written. Every text can stand in a literal of either kind, if backslashes are
put in front of its backslashes and delimiters, and is read back unchanged. A literal ends at the
first delimiter that is not escaped, which is one behind an even number of backslashes: these escape
each other and leave none for the delimiter. Without such a delimiter it is left open and takes all
that follows.
-/

namespace DiceScript.Token

/-- The delimiters, with the kinds of their literals. -/
inductive Delimits : Char → TokenKind → Prop
  | string : Delimits '"' .string
  | stored : Delimits '\x60' .stored

variable {delimiter : Char} {kind : TokenKind}

theorem Delimits.ne_backslash (h : Delimits delimiter kind) : delimiter ≠ '\\' := by
  cases h <;> decide

theorem Delimits.endsToken (h : Delimits delimiter kind) : endsToken delimiter = true := by
  cases h <;> decide

theorem Delimits.no_separator (h : Delimits delimiter kind) : isSeparator delimiter = false := by
  cases h <;> decide

theorem Delimits.kind_ne_unknown (h : Delimits delimiter kind) : kind ≠ .unknown := by
  cases h <;> decide

theorem Delimits.lexeme_eq (h : Delimits delimiter kind) (cs : List Char) :
    lexeme delimiter cs = .delimited kind delimiter cs := by
  cases h <;> rfl

/-! ## Texts with escapes -/

/-- A text with a backslash in front of each backslash and of each delimiter. -/
def escape (delimiter : Char) (cs : List Char) : List Char :=
  cs.flatMap fun c => if c = delimiter ∨ c = '\\' then ['\\', c] else [c]

/-- A text between delimiters, with escapes. -/
def delimit (delimiter : Char) (s : String) : String :=
  String.ofList (delimiter :: (escape delimiter s.toList ++ [delimiter]))

/-- What a backslash and the character behind it stand for: for that character if it is a backslash
or a delimiter, else for both. -/
def meant (delimiter c : Char) : List Char :=
  if c = delimiter ∨ c = '\\' then [c] else ['\\', c]

theorem literalAt?_pair (hne : delimiter ≠ '\\') (c : Char) (rest : List Char) :
    literalAt? delimiter ('\\' :: c :: rest) =
      (literalAt? delimiter rest).map (.cons (meant delimiter c) ['\\', c]) := by
  by_cases hc : c = delimiter ∨ c = '\\'
  · rw [literalAt?_escaped hne.symm (by simpa using hc), meant, if_pos hc]
  -- a backslash without a meaning of its own is read apart from the character behind it
  · obtain ⟨hdelimiter, hslash⟩ := not_or.1 hc
    rw [literalAt?_unescaped hne.symm (by simpa using hc), literalAt?_ordinary hdelimiter hslash,
      Option.map_map, meant, if_neg hc]
    rfl

/-- A text with escapes is read up to the delimiter behind it, and its escapes are resolved. -/
theorem literalAt?_escape (hne : delimiter ≠ '\\') (cs rest : List Char) :
    literalAt? delimiter (escape delimiter cs ++ delimiter :: rest) =
      some ⟨cs, escape delimiter cs ++ [delimiter], rest⟩ := by
  induction cs with
  | nil => exact literalAt?_delimiter rest
  | cons c cs ih =>
    by_cases hc : c = delimiter ∨ c = '\\'
    · have hescape : escape delimiter (c :: cs) = '\\' :: c :: escape delimiter cs := by
        simp [escape, hc]
      rw [hescape, List.cons_append, List.cons_append, literalAt?_pair hne, ih, meant, if_pos hc]
      rfl
    · have hescape : escape delimiter (c :: cs) = c :: escape delimiter cs := by
        simp [escape, hc]
      obtain ⟨hdelimiter, hslash⟩ := not_or.1 hc
      rw [hescape, List.cons_append, literalAt?_ordinary hdelimiter hslash, ih]
      rfl

/-! ## Where a literal ends -/

/-- The number of backslashes that a text ends in. -/
def backslashes (cs : List Char) : Nat := (cs.reverse.takeWhile (· = '\\')).length

/-- Every delimiter in a text is escaped: it stands behind an odd number of backslashes. -/
def Unclosed (delimiter : Char) (cs : List Char) : Prop :=
  ∀ before after, cs = before ++ delimiter :: after → Odd (backslashes before)

/-- A delimiter behind a text is the first that is not escaped. -/
structure ClosedBehind (delimiter : Char) (cs : List Char) : Prop where
  unclosed : Unclosed delimiter cs
  even : Even (backslashes cs)

theorem backslashes_append (xs ys : List Char) :
    backslashes (xs ++ ys) = backslashes ys ∨
      backslashes (xs ++ ys) = backslashes xs + backslashes ys := by
  unfold backslashes
  rw [List.reverse_append, List.takeWhile_append]
  split
  · right
    rename_i hall
    rw [List.length_append, hall, Nat.add_comm]
  · exact .inl rfl

theorem even_backslashes_append {xs : List Char} (hxs : Even (backslashes xs)) (ys : List Char) :
    Even (backslashes (xs ++ ys)) ↔ Even (backslashes ys) := by
  rcases backslashes_append xs ys with h | h
  · rw [h]
  · rw [h, Nat.even_add, iff_true_left hxs]

theorem unclosed_append {xs ys : List Char} (hxs : ClosedBehind delimiter xs) :
    Unclosed delimiter (xs ++ ys) ↔ Unclosed delimiter ys := by
  simp only [Unclosed, ← Nat.not_even_iff_odd]
  constructor
  · intro h before after hys heven
    refine h (xs ++ before) after ?_ ((even_backslashes_append hxs.even before).2 heven)
    rw [hys, List.append_assoc]
  · intro h before after hsplit
    rcases List.append_eq_append_iff.1 hsplit with ⟨front, rfl, hys⟩ | ⟨back, rfl, hback⟩
    · rw [even_backslashes_append hxs.even]
      exact h front after hys
    · cases back with
      | nil =>
        rw [List.append_nil] at hxs
        have hys := h [] after hback.symm
        exact absurd hys (by decide)
      | cons d back =>
        obtain ⟨rfl, rfl⟩ := List.cons.inj hback
        exact Nat.not_even_iff_odd.2 (hxs.unclosed before back rfl)

theorem closedBehind_append {xs ys : List Char} (hxs : ClosedBehind delimiter xs) :
    ClosedBehind delimiter (xs ++ ys) ↔ ClosedBehind delimiter ys := by
  constructor
  · rintro ⟨hunclosed, heven⟩
    exact ⟨(unclosed_append hxs).1 hunclosed, (even_backslashes_append hxs.even ys).1 heven⟩
  · rintro ⟨hunclosed, heven⟩
    exact ⟨(unclosed_append hxs).2 hunclosed, (even_backslashes_append hxs.even ys).2 heven⟩

theorem unclosed_nil : Unclosed delimiter [] := by
  intro before after h
  simp at h

theorem closedBehind_nil : ClosedBehind delimiter [] := ⟨unclosed_nil, by decide⟩

theorem unclosed_singleton {c : Char} (hc : c ≠ delimiter) : Unclosed delimiter [c] := by
  intro before after h
  obtain ⟨-, hrest⟩ | ⟨-, hrest⟩ := List.singleton_eq_append_iff.1 h
  · exact absurd (List.cons.inj hrest).1.symm hc
  · cases hrest

theorem closedBehind_ordinary {c : Char} (hc : c ≠ delimiter) (hslash : c ≠ '\\') :
    ClosedBehind delimiter [c] :=
  ⟨unclosed_singleton hc, by simp [backslashes, hslash]⟩

/-- A backslash and the character behind it, whether or not they are an escape. -/
theorem closedBehind_pair (hne : delimiter ≠ '\\') (c : Char) :
    ClosedBehind delimiter ['\\', c] where
  unclosed := by
    intro before after h
    cases before with
    | nil => exact absurd (List.cons.inj h).1.symm hne
    | cons d before =>
      obtain ⟨rfl, hrest⟩ := List.cons.inj h
      cases before with
      | nil => decide
      | cons e before => simp at hrest
  even := by
    by_cases hc : c = '\\'
    · rw [hc]
      decide
    · simp [backslashes, hc]

/-- How the reading of a literal ends: it is closed by the first delimiter that is not escaped, or
left open where every delimiter is escaped. -/
inductive Ends (delimiter : Char) (cs : List Char) : Option Literal → Prop
  | closed {l : Literal} {inside : List Char} (hcs : cs = inside ++ delimiter :: l.rest)
      (hwritten : l.written = inside ++ [delimiter]) (hinside : ClosedBehind delimiter inside) :
      Ends delimiter cs (some l)
  | leftOpen (h : Unclosed delimiter cs) : Ends delimiter cs none

/-- What is read in front of a literal's end belongs to the literal. -/
theorem Ends.behind {front cs : List Char} {literal : Option Literal}
    (h : Ends delimiter cs literal) (hfront : ClosedBehind delimiter front)
    (contents : List Char) : Ends delimiter (front ++ cs) (literal.map (.cons contents front)) := by
  cases h with
  | @closed l inside hcs hwritten hinside =>
    refine .closed ?_ ?_ ((closedBehind_append hfront).2 hinside)
    · rw [hcs, List.append_assoc]
      rfl
    · show front ++ l.written = _
      rw [hwritten, List.append_assoc]
  | leftOpen hunclosed => exact .leftOpen ((unclosed_append hfront).2 hunclosed)

theorem literalAt?_ends (hne : delimiter ≠ '\\') (cs : List Char) :
    Ends delimiter cs (literalAt? delimiter cs) := by
  -- a backslash takes the character behind it along, so the induction is on the length
  induction hlength : cs.length using Nat.strong_induction_on generalizing cs with
  | _ n ih =>
    cases cs with
    | nil => exact .leftOpen unclosed_nil
    | cons c rest =>
      rw [List.length_cons] at hlength
      by_cases hc : c = delimiter
      · rw [hc, literalAt?_delimiter]
        exact .closed rfl rfl closedBehind_nil
      by_cases hslash : c = '\\'
      · subst hslash
        cases rest with
        | nil =>
          rw [literalAt?_backslash hc]
          exact .leftOpen (unclosed_singleton hc)
        | cons d rest =>
          rw [List.length_cons] at hlength
          rw [literalAt?_pair hne]
          exact (ih rest.length (by omega) rest rfl).behind (closedBehind_pair hne d) _
      · rw [literalAt?_ordinary hc hslash]
        exact (ih rest.length (by omega) rest rfl).behind (closedBehind_ordinary hc hslash) [c]

/-! ## In a text -/

theorem toList_delimit (delimiter : Char) (s : String) :
    (delimit delimiter s).toList = delimiter :: (escape delimiter s.toList ++ [delimiter]) :=
  String.toList_ofList

/-- A literal that is closed is a word, whatever follows. -/
theorem closed_lexes (h : Delimits delimiter kind) {cs : List Char} {l : Literal}
    (hl : literalAt? delimiter cs = some l) :
    Lexes (delimiter :: l.written) ⟨kind, String.ofList l.contents⟩ l.rest := by
  refine ⟨delimiter, l.written, rfl, h.no_separator, ?_⟩
  rw [← literalAt?_parts cs hl, h.lexeme_eq, Lexeme.delimited, hl]

/-- A literal that is left open is a word of unknown kind, with all that follows. -/
theorem leftOpen_lexes (h : Delimits delimiter kind) {cs : List Char}
    (hnone : literalAt? delimiter cs = none) :
    Lexes (delimiter :: cs) ⟨.unknown, String.ofList (delimiter :: cs)⟩ [] := by
  refine ⟨delimiter, cs, rfl, h.no_separator, ?_⟩
  rw [List.append_nil, h.lexeme_eq, Lexeme.delimited, hnone]
  simp [Lexeme.plain]

/-- A word that ends the token in front of it is read as that word behind a text that leaves no
literal open, and what follows it is read as if it stood alone. -/
theorem Lexes.lexed_between {front rest whole : String} {tokens : List Token} {last : Position}
    {w : Word} {written : List Char} (hfront : lexed front = tokens ++ [finishAt last])
    (hopen : ∀ t ∈ tokens, ¬ t.IsOpenLiteral) (h : Lexes written w rest.toList)
    (hs : ∀ s ∈ written.head?, endsToken s = true)
    (hwhole : whole.toList = front.toList ++ written ++ rest.toList) :
    lexed whole =
      tokens ++ ⟨w.kind, w.text, ⟨last, last.advance written⟩⟩ ::
        (lexed rest).map (shifted ((front.toList ++ written).count '\n')
          (Text.size (front.toList ++ written))) := by
  have hfirst := lexed_eq_iff.1 hfront
  have hrest := scanned_behind (front.toList ++ written) rest.toList
  rw [Position.advance_append, ← hfirst.last_eq] at hrest
  have hword := h.scanned hrest
  obtain ⟨s, cs, rfl, -⟩ := h
  rw [List.cons_append] at hword
  have hall := hfirst.append (fun t ht => hopen t (List.mem_of_getLast? ht)) (hs s rfl) hword
  rw [map_shifted_lexed, ← List.cons_append, ← List.append_assoc]
  refine lexed_eq_iff.2 ?_
  rwa [hwhole, List.append_assoc]

/-- A literal stands behind a text that leaves none open: where it ends, and what is read as its
token and behind it. -/
structure ReadsLiteral (delimiter : Char) (kind : TokenKind) (last : Position) (rest : String)
    (t : Token) (later : List Token) : Prop where
  first : t.span.first = last
  unknown_iff : t.kind = .unknown ↔ Unclosed delimiter rest.toList
  /-- A literal that is left open reaches to the end. -/
  leftOpen : t.kind = .unknown → t.text = String.singleton delimiter ++ rest ∧
    t.span.last = last.advance (delimiter :: rest.toList) ∧ later = [finishAt t.span.last]
  /-- Any other ends right behind the first delimiter that is not escaped. -/
  closed : t.kind ≠ .unknown → t.kind = kind ∧ ∃ inside behind,
    rest.toList = inside ++ delimiter :: behind ∧ ClosedBehind delimiter inside ∧
    t.span.last = last.advance (delimiter :: (inside ++ [delimiter]))

theorem lexed_empty : lexed "" = [finishAt .start] := rfl

theorem exists_readsLiteral (h : Delimits delimiter kind) {front rest : String}
    {tokens : List Token} {last : Position} (hfront : lexed front = tokens ++ [finishAt last])
    (hopen : ∀ t ∈ tokens, ¬ t.IsOpenLiteral) :
    ∃ t later, lexed (front ++ String.singleton delimiter ++ rest) = tokens ++ t :: later ∧
      ReadsLiteral delimiter kind last rest t later := by
  have hdelimiter : ∀ cs, ∀ s ∈ (delimiter :: cs).head?, endsToken s = true := by
    rintro cs s ⟨⟩
    exact h.endsToken
  have hends := literalAt?_ends h.ne_backslash rest.toList
  generalize hliteral : literalAt? delimiter rest.toList = literal at hends
  cases hends with
  | @closed l inside hcs hwritten hinside =>
    have hlexes := closed_lexes h hliteral
    rw [hwritten, ← String.toList_ofList (l := l.rest)] at hlexes
    have hnotUnclosed : ¬ Unclosed delimiter rest.toList := fun hunclosed =>
      Nat.not_even_iff_odd.2 (hunclosed inside l.rest hcs) hinside.even
    refine ⟨_, _, hlexes.lexed_between hfront hopen (hdelimiter _) ?_, rfl, ?_, ?_, ?_⟩
    · simp [hcs]
    · exact iff_of_false h.kind_ne_unknown hnotUnclosed
    · exact fun hkind => absurd hkind h.kind_ne_unknown
    · exact fun _ => ⟨rfl, inside, l.rest, hcs, hinside, rfl⟩
  | leftOpen hunclosed =>
    have hlexes := leftOpen_lexes h hliteral
    have htext : String.ofList (delimiter :: rest.toList) = String.singleton delimiter ++ rest := by
      simp
    have hwhole : (front ++ String.singleton delimiter ++ rest).toList =
        front.toList ++ delimiter :: rest.toList ++ "".toList := by simp
    have hend : Position.start.advance (front.toList ++ delimiter :: rest.toList) =
        last.advance (delimiter :: rest.toList) := by
      rw [Position.advance_append, ← (lexed_eq_iff.1 hfront).last_eq]
    have htokens := hlexes.lexed_between hfront hopen (hdelimiter _) hwhole
    rw [lexed_empty, List.map_singleton, shifted_finishAt,
      Position.shifted_start, hend] at htokens
    refine ⟨_, _, htokens, rfl, ?_, ?_, ?_⟩
    · exact iff_of_true rfl hunclosed
    · exact fun _ => ⟨htext, rfl, rfl⟩
    · exact fun hkind => absurd rfl hkind

/-- In a text of fewer than 2 ^ 32 bytes, every text can be written as a literal, wherever that
stands, and is read back unchanged, with what follows read as if it stood alone. A literal is left
open, and reaches to the end, exactly if every delimiter behind its first is escaped. -/
theorem every_text_can_be_written_as_a_literal (h : Delimits delimiter kind) {front : String}
    {tokens : List Token} {last : Position}
    (hfront : tokenize front = some (tokens ++ [finishAt last]))
    (hopen : ∀ t ∈ tokens, ¬ t.IsOpenLiteral) :
    (∀ s rest : String, (front ++ delimit delimiter s ++ rest).utf8ByteSize < 2 ^ 32 →
      ∃ others, tokenize rest = some others ∧
        tokenize (front ++ delimit delimiter s ++ rest) = some
          (tokens ++ ⟨kind, s, ⟨last, last.advance (delimit delimiter s).toList⟩⟩ ::
            others.map (shifted ((front ++ delimit delimiter s).toList.count '\n')
              (front ++ delimit delimiter s).utf8ByteSize))) ∧
    ∀ rest : String, (front ++ String.singleton delimiter ++ rest).utf8ByteSize < 2 ^ 32 →
      ∃ t later,
        tokenize (front ++ String.singleton delimiter ++ rest) = some (tokens ++ t :: later) ∧
        ReadsLiteral delimiter kind last rest t later := by
  -- the text in front is a part of what can be counted
  have hlexed : ∀ behind rest : String, (front ++ behind ++ rest).utf8ByteSize < 2 ^ 32 →
      lexed front = tokens ++ [finishAt last] := by
    intro behind rest hsmall
    rw [String.utf8ByteSize_append, String.utf8ByteSize_append] at hsmall
    rw [tokenize_of_small (by omega)] at hfront
    exact Option.some.inj hfront
  refine ⟨fun s rest hsmall => ?_, fun rest hsmall => ?_⟩
  · have hlexes := closed_lexes h (literalAt?_escape h.ne_backslash s.toList rest.toList)
    rw [String.ofList_toList, ← toList_delimit] at hlexes
    have hbegins : ∀ c ∈ (delimit delimiter s).toList.head?, endsToken c = true := by
      rw [toList_delimit]
      rintro c ⟨⟩
      exact h.endsToken
    have hwhole : (front ++ delimit delimiter s ++ rest).toList =
        front.toList ++ (delimit delimiter s).toList ++ rest.toList := by
      simp only [String.toList_append]
    have hall := hlexes.lexed_between (hlexed _ _ hsmall) hopen hbegins hwhole
    have hrest := hsmall
    rw [String.utf8ByteSize_append] at hrest
    refine ⟨_, tokenize_of_small (by omega), ?_⟩
    rw [tokenize_of_small hsmall, hall, Text.utf8ByteSize_eq_size, String.toList_append]
  · obtain ⟨t, later, hall, hreads⟩ := exists_readsLiteral h (hlexed _ _ hsmall) hopen
    exact ⟨t, later, (tokenize_of_small hsmall).trans (congrArg some hall), hreads⟩

/-- A text with a quote, an accent, a line and a backslash at its end is read back from between
quotes. A backslash in front of the only quote behind them leaves a literal open. -/
theorem a_quotation_is_read_back :
    tokenize "x =" = some
      ([⟨.identifier, "x", ⟨⟨1, 0⟩, ⟨1, 1⟩⟩⟩, ⟨.equal, "=", ⟨⟨1, 2⟩, ⟨1, 3⟩⟩⟩] ++
        [finishAt ⟨1, 3⟩]) ∧
    (∀ t ∈ [⟨.identifier, "x", ⟨⟨1, 0⟩, ⟨1, 1⟩⟩⟩, ⟨.equal, "=", ⟨⟨1, 2⟩, ⟨1, 3⟩⟩⟩],
      ¬ IsOpenLiteral t) ∧
    delimit '"' "\"é\"\n\\" = "\"\\\"é\\\"\n\\\\\"" ∧
    (∃ others, tokenize "+ 1" = some others ∧
      tokenize ("x =" ++ delimit '"' "\"é\"\n\\" ++ "+ 1") = some
        ([⟨.identifier, "x", ⟨⟨1, 0⟩, ⟨1, 1⟩⟩⟩, ⟨.equal, "=", ⟨⟨1, 2⟩, ⟨1, 3⟩⟩⟩] ++
          ⟨.string, "\"é\"\n\\", ⟨⟨1, 3⟩, ⟨2, 14⟩⟩⟩ :: others.map (shifted 1 14))) ∧
    ∃ t later, tokenize ("x =" ++ String.singleton '"' ++ "a\\\" + 1") = some
      ([⟨.identifier, "x", ⟨⟨1, 0⟩, ⟨1, 1⟩⟩⟩, ⟨.equal, "=", ⟨⟨1, 2⟩, ⟨1, 3⟩⟩⟩] ++ t :: later) ∧
      ReadsLiteral '"' .string ⟨1, 3⟩ "a\\\" + 1" t later := by
  have hfront : tokenize "x =" =
      some ([⟨.identifier, "x", ⟨⟨1, 0⟩, ⟨1, 1⟩⟩⟩, ⟨.equal, "=", ⟨⟨1, 2⟩, ⟨1, 3⟩⟩⟩] ++
        [finishAt ⟨1, 3⟩]) := by
    rw [tokenize_of_small (by decide)]
    decide
  have hopen : ∀ t ∈ [⟨.identifier, "x", ⟨⟨1, 0⟩, ⟨1, 1⟩⟩⟩, ⟨.equal, "=", ⟨⟨1, 2⟩, ⟨1, 3⟩⟩⟩],
      ¬ IsOpenLiteral t := by decide
  obtain ⟨hwritten, hread⟩ := every_text_can_be_written_as_a_literal .string hfront hopen
  exact ⟨hfront, hopen, by decide, hwritten _ _ (by decide), hread _ (by decide)⟩

/-! ## Longer texts -/

/-- Where letters of a literal reach beyond the last place that can be told apart, the letter there
cannot be cut out. -/
theorem contents?_of_letters {n k : Nat} {s : Source} {tail : List Char} (hne : delimiter ≠ 'a')
    (hrest : s.rest = List.replicate k 'a' ++ tail) (hn : k ≤ n)
    (hlong : 2 ^ 32 ≤ s.position.offset.toNat + k) : contents? delimiter n s = none := by
  induction k generalizing n s with
  | zero => exact absurd hlong (Nat.not_le.2 s.position.offset.toNat_lt)
  | succ k ih =>
    obtain ⟨n, rfl⟩ := Nat.exists_eq_add_one_of_ne_zero (Nat.ne_zero_of_lt hn)
    rw [List.replicate_succ, List.cons_append] at hrest
    have hescaped : escaped? delimiter ('a' :: (List.replicate k 'a' ++ tail)) = none := rfl
    have hconsume : s.consume =
        { s with rest := List.replicate k 'a' ++ tail, position := s.position.next 'a' } := by
      rw [Source.consume, hrest]
    have hoffset : s.consume.position.offset = s.position.offset + 1 := by
      rw [hconsume]
      rfl
    unfold contents?
    rw [hrest]
    dsimp only
    rw [if_neg hne.symm, hescaped]
    by_cases hlast : s.position.offset.toNat + 1 = 2 ^ 32
    -- behind the last place stands the first
    · have hwrap : s.consume.position.offset.toNat = 0 := by
        rw [hoffset, UInt32.toNat_add, show (1 : UInt32).toNat = 1 from rfl, hlast, Nat.mod_self]
      have hsection : s.consume.section? s.position s.consume.position = none := by
        rw [Source.section?, if_neg]
        rw [UInt32.le_iff_toNat_le, hwrap]
        omega
      rw [hsection]
      rfl
    · have hlt := s.position.offset.toNat_lt
      have hnext : s.consume.position.offset.toNat = s.position.offset.toNat + 1 := by
        rw [hoffset, UInt32.toNat_add, show (1 : UInt32).toNat = 1 from rfl]
        exact Nat.mod_eq_of_lt (by omega)
      have hbehind : contents? delimiter n s.consume = none :=
        ih (by rw [hconsume]) (by omega) (by omega)
      rw [hbehind]
      exact Option.bind_fun_none _

theorem tokenize_of_letters {k : Nat} (hk : 2 ^ 32 ≤ k) :
    tokenize (delimit '"' (String.ofList (List.replicate k 'a'))) = none := by
  have hescape : ∀ n, escape '"' (List.replicate n 'a') = List.replicate n 'a' := by
    intro n
    induction n with
    | zero => rfl
    | succ n ih =>
      rw [List.replicate_succ, escape, List.flatMap_cons]
      exact congrArg ('a' :: ·) ih
  have htext : (delimit '"' (String.ofList (List.replicate k 'a'))).toList =
      '"' :: (List.replicate k 'a' ++ ['"']) := by
    rw [toList_delimit, String.toList_ofList, hescape]
  generalize delimit '"' (String.ofList (List.replicate k 'a')) = text at htext
  have hrest : (Source.ofString text).rest = '"' :: (List.replicate k 'a' ++ ['"']) := htext
  have hconsume : (Source.ofString text).consume.rest = List.replicate k 'a' ++ ['"'] := by
    rw [Source.consume, hrest]
  have hlength : text.toList.length = k + 1 + 1 := by
    rw [htext, List.length_cons, List.length_append, List.length_replicate]
    rfl
  have hcontents : contents? '"' text.toList.length (Source.ofString text).consume = none :=
    contents?_of_letters (by decide) hconsume (by omega) (by omega)
  have hnext : next? '"' (Source.ofString text) = none := by
    show literal? .string '"' (Source.ofString text) = none
    unfold literal?
    rw [show (Source.ofString text).rest.length = text.toList.length from rfl, hcontents]
    rfl
  unfold tokenize scan
  rw [hlength, scanFrom, hrest]
  dsimp only
  rw [if_neg (by decide), hnext]
  rfl

/-- A literal of 2 ^ 32 letters is not read back. The tokenizer breaks down at the last of them. -/
theorem a_text_may_be_too_long_for_a_literal :
    tokenize (delimit '"' (String.ofList (List.replicate 4294967296 'a'))) = none :=
  tokenize_of_letters (Nat.le_refl _)

end DiceScript.Token
