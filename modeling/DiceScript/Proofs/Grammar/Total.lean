import DiceScript.Proofs.Grammar.Mistakes.Rules

/-!
Every text of fewer than 2 ^ 32 bytes is read as a whole. Cutting it into tokens breaks down
nowhere, and neither does reading these, which ends at the mark of the end.
-/

namespace DiceScript.Grammar

open Reader

/-- Reading a text is total and safe. -/
structure ReadsSafely (text : String) : Prop where
  /-- The whole text is cut into tokens. -/
  scans : Token.tokenize text = some (Token.lexed text) ∧
    Token.Scanned .start text.toList (scanned text) (finishOf text).span.first
  /-- A script comes of the text. -/
  parses : Script.parse text = some (.ofText text)
  /-- Reading ends, with as many constructs inside each other as there are tokens or with more. -/
  ends : ∀ n, (scanned text).length < n →
    Script.ofTokensWithin? n text.toList (scanned text) = some (Script.ofText text)
  /-- No part of the grammar moves the cursor back, or out of the tokens. -/
  forward : ∀ n, (scanned text).length < n →
    ∀ {α : Type} {x : Reader α}, Part (readWithin n) x → StaysIn (scanned text) x
  /-- A turn of the loop over statements reads a token, or it is the last one. -/
  turns : ∀ n, (scanned text).length < n → ∀ {terminator : Option TokenKind}
    {result next : Option Expr} {piped nextPiped : Bool} {s : Setting} {p q : Progress},
    p.cursor.Within (scanned text) →
    outcome (turn (readWithin n) terminator result piped) s p = some (.again next nextPiped, q) →
    p.cursor.position < q.cursor.position
  /-- What is read at a cursor lies among the tokens. -/
  accesses : ∀ c : Cursor, c.Within (scanned text) → InBounds text c
  /-- Counting brackets stays in the 32 bits of the counter and finds the group. -/
  counters : ∀ c : Cursor, c.Within (scanned text) →
    ∀ closing, c.kind.closing? = some closing →
      Cursor.countToClosing c.kind closing 0 ((Token.lexed text).drop c.position) =
        some ((Cursor.groupAt? c.rest).map fun g => g.inside.length + 1)
  /-- No offset has started over. -/
  offsets : ∀ token ∈ Token.lexed text, token.span.first.offset ≤ token.span.last.offset ∧
    token.span.last.offset.toNat ≤ text.utf8ByteSize
  /-- Reading ends at the mark of the end. -/
  whole : ∃ root q, outcome (readWithin ((scanned text).length + 1) (.sequence none))
      ⟨text.toList, true⟩ ⟨.ofTokens (scanned text), []⟩ = some (root, q) ∧
    Script.ofText text = ⟨root, q.mistakes⟩ ∧ q.cursor.Within (scanned text) ∧
    q.cursor.position + 1 = (Token.lexed text).length

variable {text : String}

theorem offsets_in_order (h : text.utf8ByteSize < 2 ^ 32) {token : Token}
    (htoken : token ∈ Token.lexed text) :
    token.span.first.offset ≤ token.span.last.offset ∧
      token.span.last.offset.toNat ≤ text.utf8ByteSize := by
  have hscanned := Token.lex_scanned text.toList
  rw [Text.utf8ByteSize_eq_size] at h ⊢
  rw [lexed_eq, List.mem_append, List.mem_singleton] at htoken
  rcases htoken with htoken | rfl
  · obtain ⟨front, written, back, htext, hfirst, hlast⟩ := hscanned.mem_span htoken
    rw [htext, Text.size_append, Text.size_append] at h ⊢
    rw [UInt32.le_iff_toNat_le, hfirst, hlast, Position.toNat_offset (by omega),
      Position.toNat_offset (by rw [Text.size_append]; omega), Text.size_append]
    omega
  · refine ⟨UInt32.le_refl _, ?_⟩
    show (Token.lex text.toList).2.offset.toNat ≤ _
    rw [hscanned.last_eq, Position.toNat_offset h]

theorem every_text_reads_safely (text : String) (h : text.utf8ByteSize < 2 ^ 32) :
    ReadsSafely text := by
  have hcount : (scanned text).length < 2 ^ 32 := Nat.lt_of_le_of_lt (length_scanned_le text) h
  obtain ⟨root, q, hq, hscript, hwithin, hrest⟩ := reading_ends_at_the_end text
  exact
    { scans := ⟨Token.tokenize_of_small h, Token.lex_scanned text.toList⟩
      parses := Script.parse_of_small h
      ends := fun n hn => more_nesting_changes_nothing hn
      forward := fun n hn _ _ hx => hx.staysIn hn
      turns := fun n hn _ _ _ _ _ _ _ _ hp hq => turn_again_moves_on hn hp hq
      accesses := fun c hc => inBounds h hc
      counters := fun c hc closing hclosing => counting_finds_the_group hc hcount hclosing
      offsets := fun token htoken => offsets_in_order h htoken
      whole := by
        have hlength := hwithin.length_eq
        refine ⟨root, q, hq, hscript, hwithin, ?_⟩
        rw [hrest, List.length_nil] at hlength
        rw [length_lexed]
        omega }

/-- A text with a block that is never closed reads as safely as any other. -/
theorem a_broken_text_reads_safely :
    "(A, B) => \x7b if A ? [B; 1.. | )".utf8ByteSize < 2 ^ 32 ∧
      ReadsSafely "(A, B) => \x7b if A ? [B; 1.. | )" :=
  ⟨by decide, every_text_reads_safely _ (by decide)⟩

end DiceScript.Grammar
