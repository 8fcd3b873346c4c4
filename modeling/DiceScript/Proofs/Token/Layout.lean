import DiceScript.Proofs.Text.Bytes
import DiceScript.Proofs.Token.Lexemes

/-!
Where the tokens of a text stand. A text is its tokens as they are written, with nothing but
separators between them, so the text between two tokens is a part of it.
-/

namespace DiceScript

theorem Position.advance_append (p : Position) (xs ys : List Char) :
    p.advance (xs ++ ys) = (p.advance xs).advance ys := List.foldl_append

/-- Offsets are counted modulo the numbers that 32 bits hold. -/
theorem Position.advance_offset (p : Position) (cs : List Char) :
    (p.advance cs).offset = p.offset + UInt32.ofNat (Text.size cs) := by
  induction cs generalizing p with
  | nil => exact (UInt32.add_zero _).symm
  | cons c cs ih =>
    show ((p.next c).advance cs).offset = _
    rw [ih, Text.size_cons, UInt32.ofNat_add, ← UInt32.add_assoc]
    rfl

/-! ## Lexemes -/

namespace Token

/-- A lexeme of a text takes at least one character, and is no mark of the end. -/
structure Lexeme.Of (l : Lexeme) (cs : List Char) : Prop where
  parts : cs = l.written ++ l.rest
  written_ne_nil : l.written ≠ []
  kind_ne_finish : l.kind ≠ .finish

theorem Lexeme.Of.plain {kind : TokenKind} {n : Nat} {cs : List Char} (hkind : kind ≠ .finish)
    (hn : n ≠ 0) (hcs : cs ≠ []) : (Lexeme.plain kind n cs).Of cs where
  parts := (List.take_append_drop n cs).symm
  written_ne_nil := by
    show cs.take n ≠ []
    simp [hn, hcs]
  kind_ne_finish := hkind

theorem literalAt?_parts {delimiter : Char} (cs : List Char) {l : Literal}
    (h : literalAt? delimiter cs = some l) : cs = l.written ++ l.rest := by
  fun_induction literalAt? delimiter cs generalizing l with
  | case1 => cases h
  | case2 rest => cases h; rfl
  | case3 => cases h
  -- a backslash and the character behind it, with or without a meaning of their own
  | case4 hc d rest hd ih =>
    obtain ⟨inner, hinner, rfl⟩ := Option.map_eq_some_iff.mp h
    rw [ih hinner]
    rfl
  | case5 hc d rest hd ih =>
    obtain ⟨inner, hinner, rfl⟩ := Option.map_eq_some_iff.mp h
    rw [ih hinner]
    rfl
  | case6 c rest hd hc ih =>
    obtain ⟨inner, hinner, rfl⟩ := Option.map_eq_some_iff.mp h
    rw [ih hinner]
    rfl

theorem Lexeme.Of.delimited {kind : TokenKind} {delimiter : Char} {rest : List Char}
    (hkind : kind ≠ .finish) : (Lexeme.delimited kind delimiter rest).Of (delimiter :: rest) := by
  unfold Lexeme.delimited
  split
  · rename_i l hl
    refine ⟨?_, List.cons_ne_nil _ _, hkind⟩
    show delimiter :: rest = delimiter :: (l.written ++ l.rest)
    rw [← literalAt?_parts rest hl]
  · exact .plain (by decide) (by omega) (List.cons_ne_nil _ _)

theorem wordKind_ne_finish (word : List Char) : wordKind word ≠ .finish := by
  unfold wordKind
  dsimp only
  split
  · decide
  · split
    · decide
    · split <;> decide

theorem diceLength?_ne_zero {cs : List Char} {n : Nat} (h : diceLength? cs = some n) : n ≠ 0 := by
  unfold diceLength? at h
  dsimp only at h
  split at h
  · split at h
    · cases h
    · split at h
      · cases h
      · cases h
        omega
  · cases h

theorem markAt?_mem {cs mark : List Char} {kind : TokenKind} (h : markAt? cs = some (mark, kind)) :
    (mark, kind) ∈ marks := List.mem_of_find?_eq_some h

theorem marks_proper : ∀ mark ∈ marks, mark.1 ≠ [] ∧ mark.2 ≠ .finish := by decide

theorem digitRun_le (cs : List Char) : digitRun cs ≤ cs.length := by
  have htake := (List.takeWhile_sublist Decimal.isDigit (l := cs.take 3)).length_le
  have hle := List.length_take_le 3 cs
  have hmin : (cs.take 3).length = min 3 cs.length := List.length_take
  rw [digitRun]
  omega

theorem modifierLength_le (cs : List Char) : modifierLength cs ≤ cs.length := by
  cases cs with
  | nil => exact Nat.le_refl 0
  | cons c cs =>
    have hle := digitRun_le cs
    rw [modifierLength, List.length_cons]
    split <;> omega

/-- The sides and modifiers of a dice literal, behind the letter. -/
theorem dice_tail_le (rest : List Char) :
    digitRun rest + modifierLength (rest.drop (digitRun rest)) +
      modifierLength (rest.drop (digitRun rest + modifierLength (rest.drop (digitRun rest)))) ≤
      rest.length := by
  have hsides := digitRun_le rest
  have hfirst := modifierLength_le (rest.drop (digitRun rest))
  have hsecond := modifierLength_le
    (rest.drop (digitRun rest + modifierLength (rest.drop (digitRun rest))))
  rw [List.length_drop] at hfirst hsecond
  omega

theorem diceLength?_le {cs : List Char} {n : Nat} (h : diceLength? cs = some n) :
    n ≤ cs.length := by
  have hcount := digitRun_le cs
  unfold diceLength? at h
  dsimp only at h
  split at h
  · rename_i rest hrest
    have htail := dice_tail_le rest
    have hlength := congrArg List.length hrest
    rw [List.length_drop, List.length_cons] at hlength
    split at h
    · cases h
    · split at h
      · cases h
      · cases h
        omega
  · cases h

theorem markAt?_length_le {cs mark : List Char} {kind : TokenKind}
    (h : markAt? cs = some (mark, kind)) : mark.length ≤ cs.length := by
  have hprefix : mark.isPrefixOf cs = true := by simpa using List.find?_some h
  exact (List.isPrefixOf_iff_prefix.mp hprefix).length_le

theorem lexeme_of (c : Char) (rest : List Char) : (lexeme c rest).Of (c :: rest) := by
  have hcs : c :: rest ≠ [] := List.cons_ne_nil c rest
  unfold lexeme
  dsimp only
  split
  · exact .delimited (by decide)
  split
  · exact .delimited (by decide)
  split
  · rename_i n hn
    exact .plain (by decide) (diceLength?_ne_zero hn) hcs
  split
  -- the character that begins a word belongs to it
  · rename_i hstart
    refine .plain (wordKind_ne_finish _) ?_ hcs
    have hword : isWordChar c = true := by simp [isWordChar, hstart]
    simp [hword]
  split
  · rename_i hdigit
    refine .plain (by decide) ?_ hcs
    simp [hdigit]
  split
  · rename_i mark kind hmark
    obtain ⟨hne, hkind⟩ := marks_proper _ (markAt?_mem hmark)
    exact .plain hkind (by simpa using hne) hcs
  · exact .plain (by decide) (by decide) hcs

/-! ## Whole texts -/

/-- A text that begins at one place and ends at another has these tokens. -/
inductive Scanned : Position → List Char → List Token → Position → Prop
  | nil (p : Position) : Scanned p [] [] p
  | separator {p last : Position} {c : Char} {cs : List Char} {tokens : List Token}
      (hc : isSeparator c = true) (hrest : Scanned (p.next c) cs tokens last) :
      Scanned p (c :: cs) tokens last
  | token {p last : Position} {c : Char} {cs : List Char} {tokens : List Token}
      (hc : isSeparator c = false)
      (hrest : Scanned (p.advance (lexeme c cs).written) (lexeme c cs).rest tokens last) :
      Scanned p (c :: cs) (⟨(lexeme c cs).kind, (lexeme c cs).text,
        ⟨p, p.advance (lexeme c cs).written⟩⟩ :: tokens) last

theorem lexeme_rest_length (c : Char) (cs : List Char) : (lexeme c cs).rest.length ≤ cs.length := by
  obtain ⟨hparts, hne, -⟩ := lexeme_of c cs
  have hlength := congrArg List.length hparts
  have hpos := List.length_pos_iff.mpr hne
  simp only [List.length_cons, List.length_append] at hlength
  omega

theorem lexFrom_scanned {n : Nat} {p : Position} {cs : List Char} (hn : cs.length ≤ n) :
    Scanned p cs (lexFrom n p cs).1 (lexFrom n p cs).2 := by
  induction n generalizing p cs with
  | zero =>
    obtain rfl := List.eq_nil_of_length_eq_zero (Nat.le_zero.mp hn)
    exact .nil p
  | succ n ih =>
    cases cs with
    | nil => exact .nil p
    | cons c cs =>
      have hlen : cs.length ≤ n := Nat.le_of_succ_le_succ hn
      unfold lexFrom
      split
      · rename_i hc
        exact .separator hc (ih hlen)
      · rename_i hc
        -- a token takes at least one character, so the bound is enough for what follows it
        have hrest := Nat.le_trans (lexeme_rest_length c cs) hlen
        exact .token (Bool.eq_false_iff.mpr hc) (ih hrest)

theorem lex_scanned (cs : List Char) : Scanned .start cs (lex cs).1 (lex cs).2 :=
  lexFrom_scanned (Nat.le_refl _)

namespace Scanned

variable {p last : Position} {cs : List Char} {tokens : List Token}

theorem kind_ne_finish (h : Scanned p cs tokens last) : ∀ t ∈ tokens, t.kind ≠ .finish := by
  induction h with
  | nil p => exact fun t ht => absurd ht List.not_mem_nil
  | separator _ _ ih => exact ih
  | @token p last c cs tokens _ _ ih =>
    intro t ht
    rcases List.mem_cons.mp ht with rfl | ht
    · exact (lexeme_of c cs).kind_ne_finish
    · exact ih t ht

theorem length_le (h : Scanned p cs tokens last) : tokens.length ≤ cs.length := by
  induction h with
  | nil p => exact Nat.le_refl 0
  | separator _ _ ih => exact Nat.le_succ_of_le ih
  | @token p last c cs tokens _ _ ih =>
    have hrest := lexeme_rest_length c cs
    simp only [List.length_cons]
    omega

theorem last_eq (h : Scanned p cs tokens last) : last = p.advance cs := by
  induction h with
  | nil p => rfl
  | separator _ _ ih => exact ih
  | @token p last c cs tokens _ _ ih =>
    rw [(lexeme_of c cs).parts, Position.advance_append, ih]

/-- A token stands in the text, from where it begins to where it ends. -/
theorem mem_span (h : Scanned p cs tokens last) {t : Token} (ht : t ∈ tokens) :
    ∃ front written back, cs = front ++ written ++ back ∧ t.span.first = p.advance front ∧
      t.span.last = p.advance (front ++ written) := by
  induction h with
  | nil p => exact absurd ht List.not_mem_nil
  | @separator p last c cs tokens _ _ ih =>
    obtain ⟨front, written, back, rfl, hfirst, hlast⟩ := ih ht
    exact ⟨c :: front, written, back, rfl, hfirst, hlast⟩
  | @token p last c cs tokens _ _ ih =>
    have hparts := (lexeme_of c cs).parts
    -- it is the first token, or it stands in what follows that one
    rcases List.mem_cons.mp ht with rfl | ht
    · exact ⟨[], _, _, hparts, rfl, rfl⟩
    · obtain ⟨front, written, back, hcs, hfirst, hlast⟩ := ih ht
      refine ⟨(lexeme c cs).written ++ front, written, back, ?_, ?_, ?_⟩
      · rw [hparts]
        simp only [hcs, List.append_assoc]
      · rw [hfirst, Position.advance_append]
      · rw [hlast, List.append_assoc, Position.advance_append p]

/-- The text between two tokens: what stands before it ends with the first of them, and what stands
after it begins with the other. -/
theorem between (h : Scanned p cs tokens last) {xs ys zs : List Token} {a b : Token}
    (htokens : tokens = xs ++ a :: (ys ++ b :: zs)) :
    ∃ front middle back, cs = front ++ middle ++ back ∧ a.span.last = p.advance front ∧
      b.span.first = p.advance (front ++ middle) := by
  induction h generalizing xs with
  | nil p => simp at htokens
  | @separator p last c cs tokens _ _ ih =>
    obtain ⟨front, middle, back, rfl, hlast, hfirst⟩ := ih htokens
    exact ⟨c :: front, middle, back, rfl, hlast, hfirst⟩
  | @token p last c cs tokens _ hrest ih =>
    have hparts := (lexeme_of c cs).parts
    cases xs with
    -- the first of the two is the token at hand
    | nil =>
      obtain ⟨rfl, rfl⟩ := List.cons.inj htokens
      obtain ⟨front, written, back, hcs, hfirst, -⟩ := hrest.mem_span (t := b) (by simp)
      refine ⟨(lexeme c cs).written, front, written ++ back, ?_, rfl, ?_⟩
      · rw [hparts]
        simp only [hcs, List.append_assoc]
      · rw [hfirst, Position.advance_append]
    | cons x xs =>
      obtain ⟨front, middle, back, hcs, hlast, hfirst⟩ := ih (List.cons.inj htokens).2
      refine ⟨(lexeme c cs).written ++ front, middle, back, ?_, ?_, ?_⟩
      · rw [hparts]
        simp only [hcs, List.append_assoc]
      · rw [hlast, Position.advance_append]
      · rw [hfirst, List.append_assoc, Position.advance_append p]

end Scanned

end Token

end DiceScript
