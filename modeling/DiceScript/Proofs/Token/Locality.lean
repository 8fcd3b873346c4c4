import DiceScript.Proofs.Token.Joined
import DiceScript.Proofs.Token.Partition

/-!
Tokenizing is local. No rule for tokens looks past a separator or back at what was read before, so
separators between two texts keep their tokens apart: the tokens of both together are those of the
first and, further on, those of the second. The first text must not leave a literal open, since that
one would reach into the second.
-/

namespace DiceScript

namespace Position

/-- A place of a text, when some lines and bytes stand in front of that text. -/
def shifted (lines bytes : Nat) (p : Position) : Position :=
  ⟨p.line + UInt32.ofNat lines, p.offset + UInt32.ofNat bytes⟩

theorem shifted_shifted (lines lines' bytes bytes' : Nat) (p : Position) :
    (p.shifted lines bytes).shifted lines' bytes' =
      p.shifted (lines' + lines) (bytes' + bytes) := by
  simp only [shifted, UInt32.ofNat_add, UInt32.add_assoc, UInt32.add_comm (UInt32.ofNat lines),
    UInt32.add_comm (UInt32.ofNat bytes)]

theorem shifted_start (cs : List Char) :
    start.shifted (cs.count '\n') (Text.size cs) = start.advance cs := by
  have hline := advance_line start cs
  have hoffset := advance_offset start cs
  cases hplace : start.advance cs with
  | mk line offset =>
    rw [hplace] at hline hoffset
    rw [shifted, ← hline, ← hoffset]

theorem shifted_advance (p : Position) (lines bytes : Nat) (cs : List Char) :
    (p.advance cs).shifted lines bytes = (p.shifted lines bytes).advance cs := by
  have hline := advance_line (p.shifted lines bytes) cs
  have hoffset := advance_offset (p.shifted lines bytes) cs
  cases hplace : (p.shifted lines bytes).advance cs with
  | mk line offset =>
    rw [hplace] at hline hoffset
    simp only [shifted] at hline hoffset
    rw [shifted, advance_line, advance_offset, hline, hoffset]
    congr 1 <;> ac_rfl

end Position

namespace Token

/-- The token of a text, when some lines and bytes stand in front of that text. -/
def shifted (lines bytes : Nat) (t : Token) : Token :=
  { t with span := ⟨t.span.first.shifted lines bytes, t.span.last.shifted lines bytes⟩ }

theorem map_shifted_shifted (lines lines' bytes bytes' : Nat) (tokens : List Token) :
    (tokens.map (shifted lines bytes)).map (shifted lines' bytes') =
      tokens.map (shifted (lines' + lines) (bytes' + bytes)) := by
  rw [List.map_map]
  refine List.map_congr_left fun t _ => ?_
  simp only [Function.comp, shifted, Position.shifted_shifted]

/-- A text with another in front of it has the same tokens, shifted. -/
theorem scanned_behind (front text : List Char) :
    Scanned (Position.start.advance front) text
      ((lex text).1.map (shifted (front.count '\n') (Text.size front)))
      ((lex text).2.shifted (front.count '\n') (Text.size front)) := by
  have h := (lex_scanned text).relocated
    (fun p cs => p.shifted_advance (front.count '\n') (Text.size front) cs)
  rwa [Position.shifted_start] at h

theorem shifted_finishAt (lines bytes : Nat) (p : Position) :
    (finishAt p).shifted lines bytes = finishAt (p.shifted lines bytes) := rfl

/-- The tokens of a text that is shifted, with the mark of its end. -/
theorem map_shifted_lexed (text : String) (lines bytes : Nat) :
    (lexed text).map (shifted lines bytes) =
      (lex text.toList).1.map (shifted lines bytes) ++
        [finishAt ((lex text.toList).2.shifted lines bytes)] := by
  rw [lexed_eq_lex, List.map_append, List.map_singleton, shifted_finishAt]

/-- Separators in front of a text shift its tokens. -/
theorem lexed_behind_separators {gap : String} (text : String)
    (hgap : ∀ c ∈ gap.toList, isSeparator c = true) :
    lexed (gap ++ text) =
      (lexed text).map (shifted (gap.toList.count '\n') gap.utf8ByteSize) := by
  rw [map_shifted_lexed, Text.utf8ByteSize_eq_size]
  refine lexed_eq_iff.2 ?_
  rw [String.toList_append]
  exact .behind_separators hgap (scanned_behind gap.toList text.toList)

/-- A text that begins with what ends a token has its own tokens behind another text, if that one
leaves no literal open. -/
theorem lexed_append {front back : String} {tokens : List Token} {last : Position}
    (hfront : lexed front = tokens ++ [finishAt last])
    (hopen : ∀ t ∈ tokens, ¬ t.IsOpenLiteral) {s : Char} {rest : List Char}
    (hback : back.toList = s :: rest) (hs : endsToken s = true) :
    lexed (front ++ back) =
      tokens ++ (lexed back).map (shifted (front.toList.count '\n') front.utf8ByteSize) := by
  have hfirst := lexed_eq_iff.1 hfront
  have hsecond := scanned_behind front.toList back.toList
  rw [← hfirst.last_eq, hback] at hsecond
  rw [map_shifted_lexed, Text.utf8ByteSize_eq_size, ← List.append_assoc]
  refine lexed_eq_iff.2 ?_
  rw [String.toList_append, hback]
  exact hfirst.append (fun t ht => hopen t (List.mem_of_getLast? ht)) hs hsecond

/-- Separators between two texts keep their tokens apart. -/
theorem lexed_apart (first between second : String)
    (hopen : ∀ t ∈ lexed first, ¬ t.IsOpenLiteral) (hne : between ≠ "")
    (hbetween : ∀ c ∈ between.toList, isSeparator c = true) :
    lexed (first ++ between ++ second) = (lex first.toList).1 ++ (lexed second).map
      (shifted ((first ++ between).toList.count '\n') (first ++ between).utf8ByteSize) := by
  have hfirst := lexed_eq_lex first
  obtain ⟨s, gap, hgap⟩ := List.exists_cons_of_ne_nil (mt String.toList_eq_nil_iff.1 hne)
  have hs := endsToken_of_separator (hbetween s (hgap ▸ List.mem_cons_self))
  have hbehind : (between ++ second).toList = s :: (gap ++ second.toList) := by
    rw [String.toList_append, hgap, List.cons_append]
  have hinside : ∀ t ∈ (lex first.toList).1, ¬ t.IsOpenLiteral := by
    intro t ht
    exact hopen t (hfirst ▸ List.mem_append_left _ ht)
  rw [String.append_assoc, lexed_append hfirst hinside hbehind hs,
    lexed_behind_separators second hbetween, map_shifted_shifted, String.toList_append,
    List.count_append, String.utf8ByteSize_append]

/-- In a text of fewer than 2 ^ 32 bytes, separators between two parts keep the tokens of these
apart. -/
theorem tokenizing_is_local {first between second : String}
    (hsmall : (first ++ between ++ second).utf8ByteSize < 2 ^ 32)
    (hopen : ∀ tokens, tokenize first = some tokens → ∀ t ∈ tokens, ¬ t.IsOpenLiteral)
    (hne : between ≠ "") (hbetween : ∀ c ∈ between.toList, isSeparator c = true) :
    ∃ tokens last others, tokenize first = some (tokens ++ [finishAt last]) ∧
      tokenize second = some others ∧
      tokenize (first ++ between ++ second) = some (tokens ++ others.map
        (shifted ((first ++ between).toList.count '\n') (first ++ between).utf8ByteSize)) := by
  have hsizes := hsmall
  rw [String.utf8ByteSize_append, String.utf8ByteSize_append] at hsizes
  have hfirst : tokenize first = some (lexed first) := tokenize_of_small (by omega)
  have hsecond : tokenize second = some (lexed second) := tokenize_of_small (by omega)
  refine ⟨_, _, _, hfirst, hsecond, ?_⟩
  rw [tokenize_of_small hsmall, lexed_apart _ _ _ (hopen _ hfirst) hne hbetween]

/-- Lines between dice and a text that leaves a literal open keep both apart: the letter behind the
dice would make them a word. -/
theorem lines_keep_dice_and_a_word_apart :
    ("4d6 + d20" ++ "\r\n\t" ++ "x \"é").utf8ByteSize < 2 ^ 32 ∧
    (∀ tokens, tokenize "4d6 + d20" = some tokens → ∀ t ∈ tokens, ¬ t.IsOpenLiteral) ∧
    "\r\n\t" ≠ "" ∧ (∀ c ∈ "\r\n\t".toList, isSeparator c = true) ∧
    ∃ tokens last others, tokenize "4d6 + d20" = some (tokens ++ [finishAt last]) ∧
      tokenize "x \"é" = some others ∧
      tokenize ("4d6 + d20" ++ "\r\n\t" ++ "x \"é") =
        some (tokens ++ others.map (shifted 1 12)) := by
  have hopen : ∀ tokens, tokenize "4d6 + d20" = some tokens → ∀ t ∈ tokens, ¬ t.IsOpenLiteral := by
    intro tokens htokens
    rw [tokenize_of_small (by decide)] at htokens
    cases htokens
    decide
  have hseparators : ∀ c ∈ "\r\n\t".toList, isSeparator c = true :=
    List.all_eq_true.1 (by decide)
  exact ⟨by decide, hopen, by decide, hseparators,
    tokenizing_is_local (by decide) hopen (by decide) hseparators⟩

end Token

end DiceScript
