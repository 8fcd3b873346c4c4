import DiceScript.Proofs.Token.Joined

/-!
Tokens partition their text. From front to back a text is separators, a token as it is written,
separators again, and so on up to the mark of the end. So nothing of a text is lost, every span
begins and ends between two characters, and the text of a token that is no literal is the part of
the text that its span covers.
-/

namespace DiceScript

/-! ## Bytes and places -/

namespace Text

/-- The part of a text that stands between two offsets. -/
def Between (cs : List Char) (first last : Nat) (part : List Char) : Prop :=
  ∃ front back, cs = front ++ part ++ back ∧ first = size front ∧ last = size (front ++ part)

theorem Between.slice_eq {cs part : List Char} {first last : Nat}
    (h : Between cs first last part) : slice cs first last = part := by
  obtain ⟨front, back, rfl, rfl, rfl⟩ := h
  exact slice_append front part back

end Text

namespace Position

/-- Lines are counted modulo the numbers that 32 bits hold. -/
theorem advance_line (p : Position) (cs : List Char) :
    (p.advance cs).line = p.line + UInt32.ofNat (cs.count '\n') := by
  induction cs generalizing p with
  | nil => exact (UInt32.add_zero _).symm
  | cons c cs ih =>
    show ((p.next c).advance cs).line = _
    rw [ih, List.count_cons, next]
    by_cases hc : c = '\n'
    · simp only [hc, if_true, beq_self_eq_true, UInt32.ofNat_add, UInt32.add_assoc]
      rw [UInt32.add_comm 1]
      rfl
    · simp only [if_neg hc, beq_iff_eq, Nat.add_zero]

/-- A line that fits in 32 bits is one more than the number of newlines in front. -/
theorem toNat_line {front : List Char} (h : front.count '\n' < 2 ^ 32 - 1) :
    (start.advance front).line.toNat = 1 + front.count '\n' := by
  have hone : start.line.toNat = 1 := rfl
  rw [advance_line, UInt32.toNat_add, hone, UInt32.toNat_ofNat_of_lt' (h.trans (by decide))]
  exact Nat.mod_eq_of_lt (by omega)

/-- The place stands between two characters of a text, and its line is one more than the number of
newline bytes in front of it. -/
structure IsIn (p : Position) (cs : List Char) : Prop where
  boundary : ∃ front back, cs = front ++ back ∧ p.offset.toNat = Text.size front
  line : p.line.toNat = 1 + ((Text.bytes cs).take p.offset.toNat).count 10

theorem isIn_advance {front back : List Char} (hsize : Text.size (front ++ back) < 2 ^ 32)
    (hlines : (front ++ back).count '\n' < 2 ^ 32 - 1) :
    (start.advance front).IsIn (front ++ back) := by
  rw [Text.size_append] at hsize
  rw [List.count_append] at hlines
  have hoffset : (start.advance front).offset.toNat = Text.size front := toNat_offset (by omega)
  refine ⟨⟨front, back, rfl, hoffset⟩, ?_⟩
  rw [hoffset, Text.bytes_append, ← Text.length_bytes, List.take_left, Text.count_newline_bytes]
  exact toNat_line (by omega)

end Position

namespace Token

/-! ## Layouts -/

/-- A lexeme that is neither a string nor a stored expression has the text it is written with. -/
theorem lexeme_text_of_kind {c : Char} {cs : List Char} (hstring : (lexeme c cs).kind ≠ .string)
    (hstored : (lexeme c cs).kind ≠ .stored) :
    (lexeme c cs).text = String.ofList (lexeme c cs).written := by
  -- a literal that is left open is no longer one of the two
  have hdelimited : ∀ kind, (Lexeme.delimited kind c cs).kind ≠ kind →
      (Lexeme.delimited kind c cs).text = String.ofList (Lexeme.delimited kind c cs).written := by
    intro kind hkind
    unfold Lexeme.delimited at hkind ⊢
    cases hliteral : literalAt? c cs with
    | some l =>
      rw [hliteral] at hkind
      exact absurd rfl hkind
    | none => rfl
  by_cases hc : c = '"'
  · have hlexeme : lexeme c cs = .delimited .string c cs := by rw [lexeme, if_pos hc]
    rw [hlexeme] at hstring ⊢
    exact hdelimited .string hstring
  · by_cases hc' : c = '\x60'
    · have hlexeme : lexeme c cs = .delimited .stored c cs := by
        rw [lexeme, if_neg hc, if_pos hc']
      rw [hlexeme] at hstored ⊢
      exact hdelimited .stored hstored
    · exact lexeme_text hc hc' cs

/-- A text that begins at a place is laid out as tokens: separators stand in front of each token as
it is written, and in front of the mark of the end. -/
inductive Laid : Position → List Char → List Token → Prop
  | finish {p : Position} {gap : List Char} (hgap : ∀ c ∈ gap, isSeparator c = true) :
      Laid p gap [finishAt (p.advance gap)]
  | token {p : Position} {gap written rest : List Char} {t : Token} {ts : List Token}
      (hgap : ∀ c ∈ gap, isSeparator c = true) (hwritten : written ≠ [])
      (hkind : t.kind ≠ .finish)
      (htext : t.kind ≠ .string → t.kind ≠ .stored → t.text = String.ofList written)
      (hfirst : t.span.first = p.advance gap) (hlast : t.span.last = p.advance (gap ++ written))
      (hrest : Laid t.span.last rest ts) : Laid p (gap ++ written ++ rest) (t :: ts)

theorem Laid.separator {p : Position} {c : Char} {cs : List Char} {ts : List Token}
    (hc : isSeparator c = true) (h : Laid (p.next c) cs ts) : Laid p (c :: cs) ts := by
  cases h with
  | finish hgap => exact .finish (List.forall_mem_cons.2 ⟨hc, hgap⟩)
  | @token _ gap written rest t ts hgap hwritten hkind htext hfirst hlast hrest =>
    show Laid p ((c :: gap) ++ written ++ rest) (t :: ts)
    exact .token (List.forall_mem_cons.2 ⟨hc, hgap⟩) hwritten hkind htext hfirst hlast hrest

/-- What is read from front to back is laid out. -/
theorem Scanned.laid {p last : Position} {cs : List Char} {ts : List Token}
    (h : Scanned p cs ts last) : Laid p cs (ts ++ [finishAt last]) := by
  induction h with
  | nil p => exact .finish (List.forall_mem_nil _)
  | separator hc _ ih => exact .separator hc ih
  | @token p last c cs ts _ _ ih =>
    obtain ⟨hparts, hwritten, hkind⟩ := lexeme_of c cs
    rw [hparts, ← List.nil_append (lexeme c cs).written]
    exact .token (List.forall_mem_nil _) hwritten hkind lexeme_text_of_kind rfl rfl ih

namespace Laid

variable {p : Position} {cs : List Char} {ts : List Token}

/-- The tokens behind some others are laid out in what follows them. -/
theorem split {xs ys : List Token} (h : Laid p cs (xs ++ ys)) (hys : ys ≠ []) :
    ∃ front back, cs = front ++ back ∧ Laid (p.advance front) back ys := by
  induction xs generalizing p cs with
  | nil => exact ⟨[], cs, rfl, h⟩
  | cons x xs ih =>
    rw [List.cons_append] at h
    generalize hts : xs ++ ys = ts at h
    cases h with
    | finish hgap => exact absurd (List.append_eq_nil_iff.1 hts).2 hys
    | @token _ gap written rest _ _ hgap hwritten hkind htext hfirst hlast hrest =>
      subst hts
      obtain ⟨front, back, rfl, hback⟩ := ih hrest
      refine ⟨gap ++ written ++ front, back, by simp only [List.append_assoc], ?_⟩
      rw [hlast] at hback
      rwa [Position.advance_append]

/-- Only separators stand in front of the first token. -/
theorem first {t : Token} (h : Laid p cs (t :: ts)) :
    ∃ gap rest, cs = gap ++ rest ∧ (∀ c ∈ gap, isSeparator c = true) ∧
      t.span.first = p.advance gap := by
  cases h with
  | finish hgap => exact ⟨cs, [], (List.append_nil cs).symm, hgap, rfl⟩
  | @token _ gap written rest _ _ hgap hwritten hkind htext hfirst hlast hrest =>
    exact ⟨gap, written ++ rest, List.append_assoc .., hgap, hfirst⟩

/-- Behind the first token the others are laid out. -/
theorem tail {t u : Token} (h : Laid p cs (t :: u :: ts)) :
    ∃ front back, cs = front ++ back ∧ t.span.last = p.advance front ∧
      Laid t.span.last back (u :: ts) := by
  cases h with
  | @token _ gap written rest _ _ hgap hwritten hkind htext hfirst hlast hrest =>
    exact ⟨gap ++ written, rest, rfl, hlast, hrest⟩

/-- Every token covers a part of the text, which is not empty in front of the end and is the token's
own text if that is no literal. -/
theorem covers (h : Laid p cs ts) : ∀ t ∈ ts, ∃ front written back,
    cs = front ++ written ++ back ∧ t.span.first = p.advance front ∧
      t.span.last = p.advance (front ++ written) ∧ (t.kind ≠ .finish → written ≠ []) ∧
      (t.kind ≠ .string → t.kind ≠ .stored → t.text = String.ofList written) := by
  induction h with
  | @finish p gap hgap =>
    intro t ht
    rw [List.mem_singleton.1 ht]
    refine ⟨gap, [], [], by simp only [List.append_nil], rfl, ?_, fun hkind => absurd rfl hkind,
      fun _ _ => rfl⟩
    rw [List.append_nil]
    rfl
  | @token p gap written rest t ts hgap hwritten hkind htext hfirst hlast hrest ih =>
    intro u hu
    rcases List.mem_cons.1 hu with rfl | hu
    · exact ⟨gap, written, rest, rfl, hfirst, hlast, fun _ => hwritten, htext⟩
    · obtain ⟨front, part, back, rfl, hfirst', hlast', hne, htext'⟩ := ih u hu
      refine ⟨gap ++ written ++ front, part, back, by simp only [List.append_assoc], ?_, ?_, hne,
        htext'⟩
      · rw [hfirst', hlast, ← Position.advance_append]
      · rw [hlast', hlast, ← Position.advance_append]
        simp only [List.append_assoc]

/-- The spans stand one after another, the first of them behind what stands in front of them all. -/
theorem ordered {front : List Char} (h : Laid (Position.start.advance front) cs ts)
    (hsmall : Text.size (front ++ cs) < 2 ^ 32) :
    (∀ t ∈ ts, Text.size front ≤ t.span.first.offset.toNat) ∧
      ts.Pairwise fun a b => a.span.last.offset ≤ b.span.first.offset := by
  generalize hp : Position.start.advance front = p at h
  induction h generalizing front with
  | @finish p gap hgap =>
    refine ⟨fun t ht => ?_, List.pairwise_singleton _ _⟩
    have hplace : (p.advance gap).offset.toNat = Text.size (front ++ gap) := by
      rw [← hp, ← Position.advance_append, Position.toNat_offset hsmall]
    rw [List.mem_singleton.1 ht]
    show _ ≤ (p.advance gap).offset.toNat
    rw [hplace, Text.size_append]
    omega
  | @token p gap written rest t ts hgap hwritten hkind htext hfirst hlast hrest ih =>
    subst hp
    rw [← Position.advance_append] at hfirst hlast
    rw [← List.append_assoc front, ← List.append_assoc front] at hsmall
    obtain ⟨hbehind, hpairwise⟩ := ih (List.append_assoc front gap written ▸ hsmall) hlast.symm
    rw [Text.size_append, Text.size_append] at hsmall
    have hgapsmall : Text.size (front ++ gap) < 2 ^ 32 := by omega
    have hsmall' : Text.size (front ++ (gap ++ written)) < 2 ^ 32 := by
      rw [← List.append_assoc, Text.size_append]
      omega
    refine ⟨List.forall_mem_cons.2 ⟨?_, fun u hu => ?_⟩,
      List.pairwise_cons.2 ⟨fun u hu => ?_, hpairwise⟩⟩
    · rw [hfirst, Position.toNat_offset hgapsmall, Text.size_append]
      omega
    · have hu := hbehind u hu
      rw [Text.size_append] at hu
      omega
    · rw [hlast, UInt32.le_iff_toNat_le, Position.toNat_offset hsmall']
      exact hbehind u hu

end Laid

/-! ## Partitions -/

/-- The tokens are a partition of a text. -/
structure Partitions (text : String) (tokens : List Token) : Prop where
  /-- One token marks the end. It is the last, and covers nothing behind the whole text. -/
  finish : ∃ front last, tokens = front ++ [last] ∧ (∀ t ∈ front, t.kind ≠ .finish) ∧
    last.kind = .finish ∧ last.span.first = last.span.last ∧
    last.span.last.offset.toNat = text.utf8ByteSize
  ordered : tokens.Pairwise fun a b => a.span.last.offset ≤ b.span.first.offset
  covering : ∀ t ∈ tokens, t.kind ≠ .finish → t.span.first.offset < t.span.last.offset
  /-- Only separators stand in front of the first token. -/
  beginning : ∀ t ts, tokens = t :: ts →
    ∃ gap, Text.Between text.toList 0 t.span.first.offset.toNat gap ∧
      ∀ c ∈ gap, isSeparator c = true
  /-- Only separators stand between a token and the next. -/
  gaps : ∀ xs a b ys, tokens = xs ++ a :: b :: ys →
    ∃ gap, Text.Between text.toList a.span.last.offset.toNat b.span.first.offset.toNat gap ∧
      ∀ c ∈ gap, isSeparator c = true
  places : ∀ t ∈ tokens, t.span.first.IsIn text.toList ∧ t.span.last.IsIn text.toList
  /-- A span covers whole characters, these are cut out by its places, and they are the token's text
  if it is no literal. -/
  slices : ∀ t ∈ tokens, ∃ written,
    Text.Between text.toList t.span.first.offset.toNat t.span.last.offset.toNat written ∧
      (Source.ofString text).section? t.span.first t.span.last = some written ∧
      (t.kind ≠ .string → t.kind ≠ .stored → t.text = String.ofList written)

section

variable {text : String}

theorem laid_lexed (text : String) : Laid .start text.toList (lexed text) :=
  (lex_scanned text.toList).laid

/-- The separators between two tokens that follow each other. -/
theorem gap_between {xs ys : List Token} {a b : Token} (hsmall : text.utf8ByteSize < 2 ^ 32)
    (h : lexed text = xs ++ a :: b :: ys) :
    ∃ gap, Text.Between text.toList a.span.last.offset.toNat b.span.first.offset.toNat gap ∧
      ∀ c ∈ gap, isSeparator c = true := by
  have hlaid := laid_lexed text
  rw [h] at hlaid
  obtain ⟨front, back, htext, hback⟩ := hlaid.split (List.cons_ne_nil a _)
  obtain ⟨middle, behind, rfl, hlast, hnext⟩ := hback.tail
  obtain ⟨gap, rest, rfl, hgap, hfirst⟩ := hnext.first
  have hparts : text.toList = (front ++ middle) ++ gap ++ rest := by
    rw [htext]
    simp only [List.append_assoc]
  rw [Text.utf8ByteSize_eq_size, hparts, Text.size_append] at hsmall
  have hmiddle : Text.size (front ++ middle) < 2 ^ 32 := by
    rw [Text.size_append (front ++ middle)] at hsmall
    omega
  refine ⟨gap, ⟨front ++ middle, rest, hparts, ?_, ?_⟩, hgap⟩
  · rw [hlast, ← Position.advance_append, Position.toNat_offset hmiddle]
  · rw [hfirst, hlast, ← Position.advance_append _ front middle, ← Position.advance_append,
      Position.toNat_offset (Nat.lt_of_le_of_lt (Nat.le_add_right _ _) hsmall)]

/-- A token stands between what is in front of it and what is behind it. -/
theorem token_between {t : Token} (hsmall : text.utf8ByteSize < 2 ^ 32) (h : t ∈ lexed text) :
    ∃ front written back, text.toList = front ++ written ++ back ∧
      t.span.first = Position.start.advance front ∧
      t.span.last = Position.start.advance (front ++ written) ∧
      t.span.first.offset.toNat = Text.size front ∧
      t.span.last.offset.toNat = Text.size (front ++ written) ∧
      (t.kind ≠ .finish → written ≠ []) ∧
      (t.kind ≠ .string → t.kind ≠ .stored → t.text = String.ofList written) := by
  obtain ⟨front, written, back, htext, hfirst, hlast, hne, hwritten⟩ :=
    (laid_lexed text).covers t h
  rw [Text.utf8ByteSize_eq_size, htext, Text.size_append] at hsmall
  have hfront : Text.size front < 2 ^ 32 := by
    rw [Text.size_append front] at hsmall
    omega
  refine ⟨front, written, back, htext, hfirst, hlast, ?_, ?_, hne, hwritten⟩
  · rw [hfirst, Position.toNat_offset hfront]
  · rw [hlast, Position.toNat_offset (Nat.lt_of_le_of_lt (Nat.le_add_right _ _) hsmall)]

end

/-- The tokens of a text are a partition of it, if its bytes and lines can be counted. -/
theorem partitions_lexed (text : String) (h : text.utf8ByteSize < 2 ^ 32)
    (hlines : text.toList.count '\n' < 2 ^ 32 - 1) : Partitions text (lexed text) where
  finish := by
    have hscanned := lex_scanned text.toList
    refine ⟨(lex text.toList).1, finishAt (lex text.toList).2, rfl, hscanned.kind_ne_finish, rfl,
      rfl, ?_⟩
    show (lex text.toList).2.offset.toNat = _
    rw [hscanned.last_eq, Position.toNat_offset, Text.utf8ByteSize_eq_size]
    rwa [← Text.utf8ByteSize_eq_size]
  ordered := by
    have hlaid : Laid (Position.start.advance []) text.toList (lexed text) := laid_lexed text
    exact (hlaid.ordered (by rwa [Text.utf8ByteSize_eq_size] at h)).2
  covering := by
    intro t ht hkind
    obtain ⟨front, written, back, -, -, -, hfirst, hlast, hne, -⟩ := token_between h ht
    have hpos := Text.size_pos (hne hkind)
    rw [UInt32.lt_iff_toNat_lt, hfirst, hlast, Text.size_append]
    omega
  beginning := by
    intro t ts htokens
    have hlaid := laid_lexed text
    rw [htokens] at hlaid
    obtain ⟨gap, rest, htext, hgap, hfirst⟩ := hlaid.first
    refine ⟨gap, ⟨[], rest, htext, rfl, ?_⟩, hgap⟩
    rw [Text.utf8ByteSize_eq_size, htext, Text.size_append] at h
    rw [hfirst, Position.toNat_offset (Nat.lt_of_le_of_lt (Nat.le_add_right _ _) h)]
    rfl
  gaps := fun _ _ _ _ htokens => gap_between h htokens
  places := by
    intro t ht
    obtain ⟨front, written, back, htext, hfirst, hlast, -⟩ := token_between h ht
    rw [Text.utf8ByteSize_eq_size] at h
    rw [htext] at h hlines ⊢
    refine ⟨?_, hlast ▸ Position.isIn_advance h hlines⟩
    rw [List.append_assoc] at h hlines ⊢
    exact hfirst ▸ Position.isIn_advance h hlines
  slices := by
    intro t ht
    obtain ⟨front, written, back, htext, -, -, hfirst, hlast, -, hwritten⟩ := token_between h ht
    have hbetween : Text.Between text.toList t.span.first.offset.toNat t.span.last.offset.toNat
        written := ⟨front, back, htext, hfirst, hlast⟩
    refine ⟨written, hbetween, ?_, hwritten⟩
    rw [Source.section?, if_pos]
    · exact congrArg some hbetween.slice_eq
    · rw [UInt32.le_iff_toNat_le, hfirst, hlast]
      show _ ∧ _ ≤ Text.size text.toList
      rw [htext, Text.size_append (front ++ written), Text.size_append front]
      omega

/-- Every text of fewer than 2 ^ 32 bytes and of lines that can be counted is read into tokens that
are a partition of it. -/
theorem tokens_partition_their_text (text : String) (h : text.utf8ByteSize < 2 ^ 32)
    (hlines : text.toList.count '\n' < 2 ^ 32 - 1) :
    ∃ tokens, tokenize text = some tokens ∧ Partitions text tokens :=
  ⟨lexed text, tokenize_of_small h, partitions_lexed text h hlines⟩

/-- A text of nothing but separators has no token but the mark of its end. -/
theorem lexed_separators {cs : List Char} (hcs : ∀ c ∈ cs, isSeparator c = true) :
    lexed (String.ofList cs) = [finishAt (Position.start.advance cs)] := by
  have h := Scanned.behind_separators hcs (.nil (Position.start.advance cs))
  rw [List.append_nil] at h
  refine lexed_eq_iff.2 (?_ : Scanned .start _ [] _)
  rwa [String.toList_ofList]

/-- Behind 2 ^ 32 - 1 newlines the lines have started over. The text can be read, but its end stands
on line 0. -/
theorem lines_start_over :
    let text := String.ofList (List.replicate 4294967295 '\n')
    text.utf8ByteSize < 2 ^ 32 ∧ ∃ finish, tokenize text = some [finish] ∧
      finish.span.first.line = 0 ∧ ¬ Partitions text [finish] := by
  intro text
  have hsize : ∀ n, Text.size (List.replicate n '\n') = n := by
    intro n
    induction n with
    | zero => rfl
    | succ n ih =>
      rw [List.replicate_succ, Text.size_cons, ih]
      exact Nat.add_comm 1 n
  have hbytes : text.utf8ByteSize < 2 ^ 32 := by
    rw [Text.utf8ByteSize_eq_size, String.toList_ofList, hsize]
    decide
  have hseparators : ∀ c ∈ List.replicate 4294967295 '\n', isSeparator c = true := fun c hc =>
    (List.eq_of_mem_replicate hc).symm ▸ rfl
  have htokens := lexed_separators hseparators
  have hline : (Position.start.advance (List.replicate 4294967295 '\n')).line = 0 := by
    rw [Position.advance_line, List.count_replicate_self]
    rfl
  refine ⟨hbytes, _, (tokenize_of_small hbytes).trans (congrArg some htokens), hline, fun h => ?_⟩
  have hplace := (h.places _ (List.mem_singleton_self _)).1.line
  have hzero := congrArg UInt32.toNat hline
  rw [Nat.add_comm] at hplace
  exact absurd (hplace.symm.trans hzero) (Nat.succ_ne_zero _)

/-- A text with characters of several bytes, an escape, lines inside a literal, a word that is
nearly dice and a literal that is left open is partitioned as any other. -/
theorem a_text_of_many_kinds_is_partitioned :
    let text := "é = [d20x, 4d6h3, \"a\\\"\nß\"] >>* =>\t\x60left\nopen"
    text.utf8ByteSize < 2 ^ 32 ∧ text.toList.count '\n' < 2 ^ 32 - 1 ∧
      ∃ tokens, tokenize text = some tokens ∧ Partitions text tokens :=
  ⟨by decide, by decide, tokens_partition_their_text _ (by decide) (by decide)⟩

end Token

end DiceScript
