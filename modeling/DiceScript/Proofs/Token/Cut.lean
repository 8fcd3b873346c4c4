import DiceScript.Proofs.Token.Joined
import DiceScript.Text.Blank

/-!
Parts of a text on their own. A part that is cut out in front of a token has, read alone, the tokens
that it had in the whole. Without the blanks at its ends it has the same, but for tokens of unknown
characters, since a blank is a separator or no part of any other token outside a literal.
-/

namespace DiceScript

/-! ## Blanks -/

namespace Text

theorem trim_blanks_append {gap : List Char} (hgap : ∀ c ∈ gap, isBlank c = true)
    (cs : List Char) : trim (gap ++ cs) = trim cs := by
  rw [trim, List.dropWhile_append_of_pos hgap, trim]

theorem trim_append_blanks {gap : List Char} (hgap : ∀ c ∈ gap, isBlank c = true)
    (cs : List Char) : trim (cs ++ gap) = trim cs := by
  have hnone : gap.dropWhile isBlank = [] := by
    rw [← List.append_nil gap, List.dropWhile_append_of_pos hgap]
    rfl
  have hreverse : ∀ c ∈ gap.reverse, isBlank c = true := by simpa using hgap
  unfold trim
  rw [List.dropWhile_append]
  split
  · rename_i hempty
    rw [hnone, List.isEmpty_iff.1 hempty]
  · rw [List.reverse_append, List.dropWhile_append_of_pos hreverse]

theorem trim_parts (cs : List Char) :
    ∃ front back, cs = front ++ trim cs ++ back ∧ (∀ c ∈ front, isBlank c = true) ∧
      ∀ c ∈ back, isBlank c = true := by
  refine ⟨cs.takeWhile isBlank, ((cs.dropWhile isBlank).reverse.takeWhile isBlank).reverse,
    ?_, ?_, ?_⟩
  · rw [trim, List.append_assoc, ← List.reverse_append, List.takeWhile_append_dropWhile,
      List.reverse_reverse, List.takeWhile_append_dropWhile]
  · exact fun c hc => List.mem_takeWhile_imp hc
  · intro c hc
    exact List.mem_takeWhile_imp (List.mem_reverse.1 hc)

theorem trim_trim (cs : List Char) : trim (trim cs) = trim cs := by
  -- what is left begins as the text without the blanks in front of it, so not with a blank
  obtain ⟨back, hback⟩ : ∃ back, cs.dropWhile isBlank = trim cs ++ back := by
    refine ⟨((cs.dropWhile isBlank).reverse.takeWhile isBlank).reverse, ?_⟩
    rw [trim, ← List.reverse_append, List.takeWhile_append_dropWhile, List.reverse_reverse]
  have hfront : (trim cs).dropWhile isBlank = trim cs := by
    cases htrim : trim cs with
    | nil => rfl
    | cons c rest =>
      have hhead := List.dropWhile_idempotent isBlank cs
      rw [hback, htrim, List.cons_append, List.dropWhile_cons] at hhead
      split at hhead
      · rename_i hc
        have hlength := congrArg List.length hhead
        have hle := (List.dropWhile_sublist isBlank (l := rest ++ back)).length_le
        rw [List.length_cons] at hlength
        omega
      · rename_i hc
        rw [List.dropWhile_cons, if_neg hc]
  rw [trim, hfront]
  conv_lhs => rw [trim, List.reverse_reverse, List.dropWhile_idempotent]
  rfl

end Text

/-- Places of one text tell how much of it stands in front of them, if this can be counted. -/
theorem Position.size_eq_of_advance_eq {p : Position} {xs ys : List Char}
    (hxs : Text.size xs < 2 ^ 32) (hys : Text.size ys < 2 ^ 32)
    (h : p.advance xs = p.advance ys) : Text.size xs = Text.size ys := by
  have hoffset := congrArg Position.offset h
  rw [advance_offset, advance_offset, UInt32.add_right_inj] at hoffset
  have hsizes := congrArg UInt32.toNat hoffset
  rwa [UInt32.toNat_ofNat_of_lt' hxs, UInt32.toNat_ofNat_of_lt' hys] at hsizes

namespace Token

/-- Neither a word nor a mark nor a literal begins or goes on with a blank. -/
theorem blank_is_no_token {c : Char} (h : Text.isBlank c = true) :
    isWordChar c = false ∧ c ≠ '"' ∧ c ≠ '\x60' ∧ ∀ mark ∈ marks, c ∉ mark.1 := by
  refine ⟨?_, ?_, ?_, fun mark hmark hc => ?_⟩
  · by_contra hword
    have hrange := isWordChar_range (Bool.not_eq_false _ ▸ hword)
    simp only [Text.isBlank, Text.blankIntervals, List.any_cons, List.any_nil, Bool.or_eq_true,
      Bool.and_eq_true, decide_eq_true_eq, Bool.false_eq_true, or_false] at h
    omega
  · rintro rfl
    exact absurd h (by decide)
  · rintro rfl
    exact absurd h (by decide)
  · have hall : (marks.all fun mark => mark.1.all fun c => !Text.isBlank c) = true := by decide
    have hno := List.all_eq_true.1 (List.all_eq_true.1 hall mark hmark) c hc
    rw [h] at hno
    cases hno

theorem endsToken_of_blank {c : Char} (h : Text.isBlank c = true) : endsToken c = true := by
  obtain ⟨hword, -, -, hmarks⟩ := blank_is_no_token h
  refine Bool.and_eq_true_iff.2 ⟨by rw [hword]; rfl, List.all_eq_true.2 fun mark hmark => ?_⟩
  have htail : c ∉ mark.1.tail := fun hc => hmarks mark hmark (List.mem_of_mem_tail hc)
  simpa using htail

/-- A blank that is no separator is a token of an unknown character. -/
theorem lexeme_blank {c : Char} (h : Text.isBlank c = true) (cs : List Char) :
    lexeme c cs = ⟨.unknown, String.ofList [c], [c], cs⟩ := by
  obtain ⟨hword, hstring, hstored, hmarks⟩ := blank_is_no_token h
  obtain ⟨hdigit, hstart⟩ := Bool.or_eq_false_iff.1 hword
  have hmark : markAt? (c :: cs) = none := by
    refine List.find?_eq_none.2 fun mark hmark hprefix => ?_
    have hne := (marks_proper mark hmark).1
    cases hchars : mark.1 with
    | nil => exact hne hchars
    | cons m rest =>
      rw [hchars] at hprefix
      have hm : m = c := by
        simp only [List.isPrefixOf, Bool.and_eq_true, beq_iff_eq] at hprefix
        exact hprefix.1
      exact hmarks mark hmark (by rw [hchars, hm]; exact List.mem_cons_self)
  unfold lexeme
  dsimp only
  rw [if_neg hstring, if_neg hstored, diceLength?_eq_none hword, hstart, hdigit, hmark]
  rfl

/-! ## Literals -/

theorem delimiter_mem_written {delimiter : Char} (cs : List Char) {l : Literal}
    (h : literalAt? delimiter cs = some l) : delimiter ∈ l.written := by
  fun_induction literalAt? delimiter cs generalizing l with
  | case1 => cases h
  | case2 rest =>
    cases h
    exact List.mem_singleton_self _
  | case3 => cases h
  | case4 _ _ _ _ ih | case5 _ _ _ _ ih | case6 _ _ _ _ ih =>
    obtain ⟨inner, hinner, rfl⟩ := Option.map_eq_some_iff.1 h
    exact List.mem_append_right _ (ih hinner)

/-- A literal that is not closed in a text, but is closed further on, reaches beyond the text up to
a delimiter. -/
theorem literalAt?_reaches {delimiter : Char} (xs ys : List Char) {l : Literal}
    (hxs : literalAt? delimiter xs = none) (h : literalAt? delimiter (xs ++ ys) = some l) :
    ∃ zs, l.written = xs ++ zs ∧ ys = zs ++ l.rest ∧ delimiter ∈ zs := by
  -- it is enough that the literal goes through the whole text
  suffices hthrough : ∃ zs, l.written = xs ++ zs ∧ delimiter ∈ zs by
    obtain ⟨zs, hwritten, hmem⟩ := hthrough
    have hparts := literalAt?_parts _ h
    rw [hwritten, List.append_assoc] at hparts
    exact ⟨zs, hwritten, List.append_cancel_left hparts, hmem⟩
  fun_induction literalAt? delimiter xs generalizing l with
  | case1 => exact ⟨l.written, rfl, delimiter_mem_written ys h⟩
  | case2 rest => cases hxs
  -- a backslash at the end of the text goes with what follows it
  | case3 hne =>
    cases ys with
    | nil =>
      rw [List.append_nil, literalAt?_backslash hne] at h
      cases h
    | cons y ys =>
      rw [List.cons_append, List.nil_append] at h
      by_cases hy : (y = delimiter || y = '\\') = true
      · rw [literalAt?_escaped hne hy] at h
        obtain ⟨inner, hinner, rfl⟩ := Option.map_eq_some_iff.1 h
        refine ⟨y :: inner.written, rfl, List.mem_cons_of_mem _ ?_⟩
        exact delimiter_mem_written ys hinner
      · rw [literalAt?_unescaped hne hy] at h
        obtain ⟨inner, hinner, rfl⟩ := Option.map_eq_some_iff.1 h
        exact ⟨inner.written, rfl, delimiter_mem_written _ hinner⟩
  | case4 d rest hd hne ih =>
    rw [List.cons_append, List.cons_append, literalAt?_escaped hne hd] at h
    obtain ⟨inner, hinner, rfl⟩ := Option.map_eq_some_iff.1 h
    obtain ⟨zs, hwritten, hmem⟩ := ih (Option.map_eq_none_iff.1 hxs) hinner
    exact ⟨zs, congrArg (['\\', d] ++ ·) hwritten, hmem⟩
  | case5 d rest hd hne ih =>
    rw [List.cons_append, List.cons_append, literalAt?_unescaped hne hd] at h
    obtain ⟨inner, hinner, rfl⟩ := Option.map_eq_some_iff.1 h
    obtain ⟨zs, hwritten, hmem⟩ := ih (Option.map_eq_none_iff.1 hxs) hinner
    exact ⟨zs, congrArg _ hwritten, hmem⟩
  | case6 c rest hne hslash ih =>
    rw [List.cons_append, literalAt?_ordinary hne hslash] at h
    obtain ⟨inner, hinner, rfl⟩ := Option.map_eq_some_iff.1 h
    obtain ⟨zs, hwritten, hmem⟩ := ih (Option.map_eq_none_iff.1 hxs) hinner
    exact ⟨zs, congrArg _ hwritten, hmem⟩

/-- A lexeme of a literal that is left open. -/
def Lexeme.IsOpen (l : Lexeme) : Prop :=
  l.kind = .unknown ∧ (l.text.toList.head? = some '"' ∨ l.text.toList.head? = some '\x60')

theorem Lexeme.IsOpen.rest_eq_nil {c : Char} {cs : List Char} (h : (lexeme c cs).IsOpen) :
    (lexeme c cs).rest = [] := by
  have hdelimited : ∀ kind, kind ≠ .unknown → (Lexeme.delimited kind c cs).kind = .unknown →
      (Lexeme.delimited kind c cs).rest = [] := by
    intro kind hkind hunknown
    unfold Lexeme.delimited at hunknown ⊢
    split at hunknown
    · exact absurd hunknown hkind
    · simp [Lexeme.plain]
  by_cases hstring : c = '"'
  · have hlexeme : lexeme c cs = .delimited .string c cs := by rw [lexeme, if_pos hstring]
    rw [hlexeme]
    exact hdelimited .string (by decide) (hlexeme ▸ h.1)
  by_cases hstored : c = '\x60'
  · have hlexeme : lexeme c cs = .delimited .stored c cs := by
      rw [lexeme, if_neg hstring, if_pos hstored]
    rw [hlexeme]
    exact hdelimited .stored (by decide) (hlexeme ▸ h.1)
  -- any other token begins with its first character, which is no delimiter
  · obtain ⟨hparts, hne, -⟩ := lexeme_of c cs
    obtain ⟨d, rest, hwritten⟩ := List.exists_cons_of_ne_nil hne
    rw [hwritten] at hparts
    obtain ⟨rfl, -⟩ := List.cons.inj hparts
    have hhead := h.2
    rw [lexeme_text hstring hstored, String.toList_ofList, hwritten, List.head?_cons,
      Option.some_inj, Option.some_inj] at hhead
    exact absurd hhead (not_or.2 ⟨hstring, hstored⟩)

/-- A literal is closed and does not depend on what follows it, or it reaches beyond: to a delimiter
further on, or to the end. -/
theorem delimited_append_or_beyond (kind : TokenKind) {delimiter : Char}
    (hdelimiter : delimiter = '"' ∨ delimiter = '\x60') (xs ys : List Char) :
    Lexeme.delimited kind delimiter (xs ++ ys) =
      { Lexeme.delimited kind delimiter xs with
        rest := (Lexeme.delimited kind delimiter xs).rest ++ ys } ∨
    ∃ zs, (Lexeme.delimited kind delimiter (xs ++ ys)).written = delimiter :: (xs ++ zs) ∧
      ((Lexeme.delimited kind delimiter (xs ++ ys)).IsOpen ∧ zs = ys ∨
        delimiter ∈ zs ∧ ∀ c ∈ zs, c ∈ ys) := by
  cases hliteral : literalAt? delimiter xs with
  | some l =>
    refine .inl ?_
    unfold Lexeme.delimited
    rw [literalAt?_append xs ys hliteral, hliteral]
  | none =>
    refine .inr ?_
    unfold Lexeme.delimited
    cases hbeyond : literalAt? delimiter (xs ++ ys) with
    | some l =>
      obtain ⟨zs, hwritten, hys, hmem⟩ := literalAt?_reaches xs ys hliteral hbeyond
      refine ⟨zs, congrArg _ hwritten, .inr ⟨hmem, fun c hc => ?_⟩⟩
      rw [hys]
      exact List.mem_append_left _ hc
    | none =>
      refine ⟨ys, by simp [Lexeme.plain], .inl ⟨⟨rfl, ?_⟩, rfl⟩⟩
      simpa [Lexeme.plain] using hdelimiter

/-- The first token of a text is the same whatever follows a character that ends tokens, or it is a
literal that reaches beyond the text. -/
theorem lexeme_append_or_beyond (c : Char) (xs : List Char) {s : Char} (hs : endsToken s = true)
    (ys : List Char) :
    lexeme c (xs ++ s :: ys) = { lexeme c xs with rest := (lexeme c xs).rest ++ s :: ys } ∨
    ∃ zs, (lexeme c (xs ++ s :: ys)).written = c :: (xs ++ zs) ∧
      ((lexeme c (xs ++ s :: ys)).IsOpen ∧ zs = s :: ys ∨
        ∃ d ∈ zs, (d = '"' ∨ d = '\x60') ∧ ∀ c ∈ zs, c ∈ s :: ys) := by
  by_cases hstring : c = '"'
  · subst hstring
    rcases delimited_append_or_beyond .string (.inl rfl) xs (s :: ys) with h | h
    · exact .inl h
    · obtain ⟨zs, hwritten, hopen | ⟨hmem, hzs⟩⟩ := h
      · exact .inr ⟨zs, hwritten, .inl hopen⟩
      · exact .inr ⟨zs, hwritten, .inr ⟨_, hmem, .inl rfl, hzs⟩⟩
  by_cases hstored : c = '\x60'
  · subst hstored
    rcases delimited_append_or_beyond .stored (.inr rfl) xs (s :: ys) with h | h
    · exact .inl h
    · obtain ⟨zs, hwritten, hopen | ⟨hmem, hzs⟩⟩ := h
      · exact .inr ⟨zs, hwritten, .inl hopen⟩
      · exact .inr ⟨zs, hwritten, .inr ⟨_, hmem, .inr rfl, hzs⟩⟩
  · exact .inl (lexeme_append hstring hstored hs xs ys)

/-- A token that is written inside a text is the same whatever follows a character that ends
tokens. -/
theorem lexeme_append_of_size_le {c : Char} {xs : List Char} {s : Char} (hs : endsToken s = true)
    {ys : List Char}
    (hle : Text.size (lexeme c (xs ++ s :: ys)).written ≤ Text.size (c :: xs)) :
    lexeme c (xs ++ s :: ys) = { lexeme c xs with rest := (lexeme c xs).rest ++ s :: ys } := by
  obtain hlexeme | ⟨zs, hwritten, hbeyond⟩ := lexeme_append_or_beyond c xs hs ys
  · exact hlexeme
  · have hzs : zs ≠ [] := by
      rcases hbeyond with ⟨-, rfl⟩ | ⟨d, hd, -⟩
      · exact List.cons_ne_nil _ _
      · exact List.ne_nil_of_mem hd
    have hpos := Text.size_pos hzs
    rw [hwritten, Text.size_cons, Text.size_cons, Text.size_append] at hle
    omega

/-! ## Parts that are cut out -/

namespace Scanned

variable {p last : Position} {cs : List Char} {tokens : List Token}

/-- Behind a literal that is left open stands no token. -/
theorem after_open {xs ys : List Token} {t : Token} (h : Scanned p cs (xs ++ t :: ys) last)
    (ht : t.IsOpenLiteral) : ys = [] := by
  generalize htokens : xs ++ t :: ys = ts at h
  induction h generalizing xs with
  | nil p => simp at htokens
  | separator _ _ ih => exact ih htokens
  | @token p last c cs ts _ hrest ih =>
    cases xs with
    | nil =>
      obtain ⟨rfl, rfl⟩ := List.cons.inj htokens
      have hnil : (lexeme c cs).rest = [] := Lexeme.IsOpen.rest_eq_nil ht
      rw [hnil] at hrest
      cases hrest
      rfl
    | cons x xs => exact ih (List.cons.inj htokens).2

/-- The tokens behind one of them are those of what is written behind it. -/
theorem behind {xs ys : List Token} {a : Token} (h : Scanned p cs (xs ++ a :: ys) last) :
    ∃ front back, cs = front ++ back ∧ a.span.last = p.advance front ∧
      Scanned (p.advance front) back ys last := by
  generalize htokens : xs ++ a :: ys = ts at h
  induction h generalizing xs with
  | nil p => simp at htokens
  | @separator p last c cs ts hc hrest ih =>
    obtain ⟨front, back, rfl, hlast, hback⟩ := ih htokens
    exact ⟨c :: front, back, rfl, hlast, hback⟩
  | @token p last c cs ts hc hrest ih =>
    have hparts := (lexeme_of c cs).parts
    cases xs with
    | nil =>
      obtain ⟨rfl, rfl⟩ := List.cons.inj htokens
      exact ⟨_, _, hparts, rfl, hrest⟩
    | cons x xs =>
      obtain ⟨front, back, hcs, hlast, hback⟩ := ih (List.cons.inj htokens).2
      refine ⟨(lexeme c cs).written ++ front, back, ?_, ?_, ?_⟩
      · rw [hparts, List.append_assoc, ← hcs]
      · rw [hlast, Position.advance_append]
      · rwa [Position.advance_append]

/-- The tokens from one of them on are those of the text that begins with it. -/
theorem fromToken {xs ys : List Token} {b : Token} (h : Scanned p cs (xs ++ b :: ys) last) :
    ∃ front c rest, cs = front ++ c :: rest ∧ b.span.first = p.advance front ∧
      isSeparator c = false ∧ b.kind = (lexeme c rest).kind ∧ b.text = (lexeme c rest).text := by
  generalize htokens : xs ++ b :: ys = ts at h
  induction h generalizing xs with
  | nil p => simp at htokens
  | @separator p last c cs ts hc hrest ih =>
    obtain ⟨front, d, rest, rfl, hfirst, hd⟩ := ih htokens
    exact ⟨c :: front, d, rest, rfl, hfirst, hd⟩
  | @token p last c cs ts hc hrest ih =>
    cases xs with
    | nil =>
      obtain ⟨rfl, rfl⟩ := List.cons.inj htokens
      exact ⟨[], c, cs, rfl, rfl, hc, rfl, rfl⟩
    | cons x xs =>
      obtain ⟨front, d, rest, hcs, hfirst, hd⟩ := ih (List.cons.inj htokens).2
      refine ⟨(lexeme c cs).written ++ front, d, rest, ?_, ?_, hd⟩
      · rw [(lexeme_of c cs).parts, List.append_assoc, ← hcs]
      · rw [hfirst, Position.advance_append]

/-- A token stands behind what is in front of the tokens it is one of. -/
theorem size_front_le {front cs part : List Char} {ts : List Token} {b : Token}
    (h : Scanned (p.advance front) cs ts last) (hb : b ∈ ts)
    (hplace : b.span.first = p.advance part) (hsmall : Text.size (front ++ cs) < 2 ^ 32)
    (hpart : Text.size part < 2 ^ 32) : Text.size front ≤ Text.size part := by
  obtain ⟨before, written, back, rfl, hfirst, -⟩ := h.mem_span hb
  rw [List.append_assoc, ← List.append_assoc, Text.size_append] at hsmall
  rw [← Position.advance_append] at hfirst
  have hsize := Position.size_eq_of_advance_eq (by omega) hpart (hfirst.symm.trans hplace)
  rw [Text.size_append] at hsize
  omega

/-- The part of a text in front of a token has, read alone, the tokens in front of that one, if the
token begins with a character that ends tokens. -/
theorem cut {part ys : List Char} {s : Char} {inside after : List Token} {b : Token}
    (hs : endsToken s = true) (hsmall : Text.size (part ++ s :: ys) < 2 ^ 32)
    (h : Scanned p (part ++ s :: ys) (inside ++ b :: after) last)
    (hb : b.span.first = p.advance part) : Scanned p part inside (p.advance part) := by
  have hpart : Text.size part < 2 ^ 32 := by
    rw [Text.size_append] at hsmall
    omega
  generalize htext : part ++ s :: ys = text at h hsmall
  generalize htokens : inside ++ b :: after = ts at h
  induction h generalizing part inside with
  | nil p => simp at htext
  | @separator p last c cs ts hc hrest ih =>
    have hmem : b ∈ ts := by rw [← htokens]; simp
    cases part with
    | nil =>
      -- the token would begin behind the separator
      have hnext : Scanned (p.advance [c]) cs ts last := hrest
      have hle : Text.size [c] ≤ Text.size [] := hnext.size_front_le hmem hb hsmall hpart
      exact absurd hle (Nat.not_le.2 (Text.size_pos (List.cons_ne_nil c [])))
    | cons d part =>
      rw [Text.size_cons] at hsmall
      rw [List.cons_append] at htext
      obtain ⟨rfl, rfl⟩ := List.cons.inj htext
      rw [Text.size_cons] at hpart
      exact .separator hc (ih hb (by omega) rfl (by omega) htokens)
  | @token p last c cs ts hc hrest ih =>
    have hpos := Text.size_pos (lexeme_of c cs).written_ne_nil
    cases inside with
    | nil =>
      obtain ⟨rfl, rfl⟩ := List.cons.inj htokens
      obtain rfl : part = [] := by
        by_contra hne
        have hstart : p.advance [] = p.advance part := hb
        have hsize := Position.size_eq_of_advance_eq (by decide) hpart hstart
        exact absurd hsize.symm (Nat.ne_of_gt (Text.size_pos hne))
      exact .nil p
    | cons i is =>
      obtain ⟨rfl, hts⟩ := List.cons.inj htokens
      -- the first token is written in front of the one where the part is cut
      have hmem : b ∈ ts := by rw [← hts]; simp
      have hle : Text.size (lexeme c cs).written ≤ Text.size part :=
        hrest.size_front_le hmem hb ((lexeme_of c cs).parts ▸ hsmall) hpart
      cases part with
      | nil => exact absurd hle (Nat.not_le.2 hpos)
      | cons d part =>
        rw [List.cons_append] at htext
        obtain ⟨rfl, rfl⟩ := List.cons.inj htext
        have hparts := (lexeme_of d part).parts
        simp only [lexeme_append_of_size_le hs hle] at hrest ih ⊢
        have hb' : b.span.first =
            (p.advance (lexeme d part).written).advance (lexeme d part).rest := by
          rw [hb, ← Position.advance_append, ← hparts]
        have hsizes := congrArg Text.size hparts
        rw [Text.size_append] at hsizes
        have hrestsmall : Text.size ((lexeme d part).rest ++ s :: ys) < 2 ^ 32 := by
          rw [Text.size_append]
          rw [Text.size_cons, Text.size_append, ← Nat.add_assoc, ← Text.size_cons] at hsmall
          omega
        have hrest' := ih hb' (by omega) rfl hrestsmall hts
        rw [← Position.advance_append, ← hparts] at hrest'
        exact .token hc hrest'

/-- Blanks in front of a text add nothing to its tokens but unknown characters. -/
theorem behind_blanks {gap : List Char} (hgap : ∀ c ∈ gap, Text.isBlank c = true)
    (h : Scanned p (gap ++ cs) tokens last) :
    ∃ us ts, tokens = us ++ ts ∧ (∀ u ∈ us, u.kind = .unknown) ∧
      Scanned (p.advance gap) cs ts last := by
  induction gap generalizing p tokens with
  | nil => exact ⟨[], tokens, rfl, nofun, h⟩
  | cons c gap ih =>
    obtain ⟨hc, hgap⟩ := List.forall_mem_cons.1 hgap
    rw [List.cons_append] at h
    cases h with
    | separator _ hrest => exact ih hgap hrest
    | token _ hrest =>
      simp only [lexeme_blank hc] at hrest ⊢
      obtain ⟨us, ts, rfl, hus, hts⟩ := ih hgap hrest
      exact ⟨_ :: us, ts, rfl, List.forall_mem_cons.2 ⟨rfl, hus⟩, hts⟩

theorem of_blanks {gap : List Char} (hgap : ∀ c ∈ gap, Text.isBlank c = true)
    (h : Scanned p gap tokens last) : ∀ u ∈ tokens, u.kind = .unknown := by
  rw [← List.append_nil gap] at h
  obtain ⟨us, ts, rfl, hus, hts⟩ := h.behind_blanks hgap
  cases hts
  rwa [List.append_nil]

/-- Blanks behind a text add nothing to its tokens but unknown characters, if no literal is left
open. -/
theorem before_blanks {gap : List Char} (hgap : ∀ c ∈ gap, Text.isBlank c = true)
    (h : Scanned p (cs ++ gap) tokens last) (hopen : ∀ t ∈ tokens, ¬ t.IsOpenLiteral) :
    ∃ ts us, tokens = ts ++ us ∧ (∀ u ∈ us, u.kind = .unknown) ∧
      Scanned p cs ts (p.advance cs) := by
  cases gap with
  | nil =>
    rw [List.append_nil] at h
    exact ⟨tokens, [], (List.append_nil _).symm, nofun, h.last_eq ▸ h⟩
  | cons s gap =>
    have hs := endsToken_of_blank (hgap s List.mem_cons_self)
    generalize htext : cs ++ s :: gap = text at h
    induction h generalizing cs with
    | nil p => simp at htext
    | @separator p last c rest tokens hc hrest ih =>
      cases cs with
      | nil =>
        rw [List.nil_append] at htext
        exact ⟨[], tokens, rfl, of_blanks (htext ▸ hgap) (.separator hc hrest), .nil p⟩
      | cons d cs =>
        rw [List.cons_append] at htext
        obtain ⟨rfl, rfl⟩ := List.cons.inj htext
        obtain ⟨ts, us, rfl, hus, hts⟩ := ih hopen rfl
        exact ⟨ts, us, rfl, hus, .separator hc hts⟩
    | @token p last c rest tokens hc hrest ih =>
      cases cs with
      | nil =>
        rw [List.nil_append] at htext
        exact ⟨[], _, rfl, of_blanks (htext ▸ hgap) (.token hc hrest), .nil p⟩
      | cons d cs =>
        rw [List.cons_append] at htext
        obtain ⟨rfl, rfl⟩ := List.cons.inj htext
        obtain ⟨hfirst, hopen⟩ := List.forall_mem_cons.1 hopen
        rcases lexeme_append_or_beyond d cs hs gap with hlexeme | ⟨zs, -, ⟨hliteral, -⟩ | hmem⟩
        · have hparts := (lexeme_of d cs).parts
          simp only [hlexeme] at hrest ih ⊢
          obtain ⟨ts, us, rfl, hus, hts⟩ := ih hopen rfl
          rw [← Position.advance_append, ← hparts] at hts
          exact ⟨_ :: ts, us, rfl, hus, .token hc hts⟩
        · exact absurd hliteral hfirst
        -- no delimiter is a blank
        · obtain ⟨delimiter, hdelimiter, hkind, hzs⟩ := hmem
          obtain ⟨-, hstring, hstored, -⟩ := blank_is_no_token (hgap _ (hzs _ hdelimiter))
          exact absurd hkind (not_or.2 ⟨hstring, hstored⟩)

/-- Where a text begins makes no difference to its words. -/
theorem elsewhere (h : Scanned p cs tokens last) (q : Position) :
    ∃ ts, Scanned q cs ts (q.advance cs) ∧ ts.map word = tokens.map word := by
  induction h generalizing q with
  | nil p => exact ⟨[], .nil q, rfl⟩
  | @separator p last c cs tokens hc _ ih =>
    obtain ⟨ts, hts, hwords⟩ := ih (q.next c)
    exact ⟨ts, .separator hc hts, hwords⟩
  | @token p last c cs tokens hc _ ih =>
    obtain ⟨ts, hts, hwords⟩ := ih (q.advance (lexeme c cs).written)
    rw [← Position.advance_append, ← (lexeme_of c cs).parts] at hts
    exact ⟨_, .token hc hts, congrArg (_ :: ·) hwords⟩

end Scanned

end Token

end DiceScript
