import DiceScript.Proofs.Token.Layout

/-!
Texts whose places can be told apart. In a text of fewer than 2 ^ 32 bytes no offset starts over, so
that what is cut out between two places is what stands there, and the tokenizer comes to the tokens
that the characters tell.
-/

namespace DiceScript

/-! ## Bytes ahead -/

namespace Text

/-- A character of one byte is told by its first byte, whatever stands behind it, and no first byte
of any other character is taken for one. -/
theorem any_isByteOf_byteAt? {test : Char → Bool} (htest : ∀ c, test c = true → c.toNat ≤ 127)
    {cs : List Char} {k : Nat} (hlow : ∀ c ∈ cs.take k, c.toNat ≤ 127) :
    (byteAt? cs k).any (Token.isByteOf test) = (cs.drop k).head?.any test := by
  induction k generalizing cs with
  | zero =>
    cases cs with
    | nil => rfl
    | cons c cs =>
      obtain ⟨b, bs, hb, hc⟩ := encoded_first c
      rw [byteAt?, if_pos c.utf8Size_pos, hb]
      simp only [List.getElem?_cons_zero, Option.any_some, List.drop_zero, List.head?_cons,
        Token.isByteOf]
      rcases hc with ⟨-, -, hbc⟩ | ⟨hhigh, hbhigh⟩
      · rw [hbc, Char.ofNat_toNat]
      · have hvalid : b.toNat.isValidChar := .inl (Nat.lt_trans b.toNat_lt (by decide))
        have hbyte : (Char.ofNat b.toNat).toNat = b.toNat := by
          rw [Char.toNat_ofNat, if_pos hvalid]
        have hfalse : ∀ d : Char, 127 < d.toNat → test d = false := fun d hd =>
          Bool.eq_false_iff.2 fun h => absurd (htest d h) (Nat.not_le.2 hd)
        rw [hfalse c hhigh, hfalse _ (by omega)]
  | succ k ih =>
    cases cs with
    | nil => rfl
    | cons c cs =>
      rw [List.take_succ_cons] at hlow
      obtain ⟨hc, hlow⟩ := List.forall_mem_cons.1 hlow
      obtain ⟨b, bs, hb, ⟨-, rfl, -⟩ | ⟨hhigh, -⟩⟩ := encoded_first c
      · have hsize : c.utf8Size = 1 := by rw [← String.length_utf8EncodeChar, hb]; rfl
        rw [byteAt?, if_neg (by omega), hsize, Nat.add_sub_cancel, ih hlow, List.drop_succ_cons]
      · omega

end Text

/-! ## Sources -/

/-- An offset that fits in 32 bits is the number of bytes in front. -/
theorem Position.toNat_offset {front : List Char} (h : Text.size front < 2 ^ 32) :
    (start.advance front).offset.toNat = Text.size front := by
  rw [advance_offset]
  show (0 + UInt32.ofNat (Text.size front)).toNat = _
  rw [UInt32.zero_add, UInt32.toNat_ofNat_of_lt' h]

namespace Source

/-- A text of which the first characters have been read. -/
def after (front rest : List Char) : Source := ⟨front ++ rest, rest, Position.start.advance front⟩

theorem ofString_eq (text : String) : ofString text = after [] text.toList := rfl

theorem consume_after (front : List Char) (c : Char) (rest : List Char) :
    (after front (c :: rest)).consume = after (front ++ [c]) rest := by
  simp only [consume, after, List.append_assoc, List.cons_append, List.nil_append,
    Position.advance_append]
  rfl

theorem skip_after (front written rest : List Char) :
    (after front (written ++ rest)).skip written.length = after (front ++ written) rest := by
  induction written generalizing front with
  | nil => simp [skip]
  | cons c written ih =>
    rw [List.length_cons, skip, List.cons_append, consume_after, ih, List.append_assoc]
    rfl

theorem skipWhile_after (test : Char → Bool) (front rest : List Char) :
    (after front rest).skipWhile test =
      after (front ++ rest.takeWhile test) (rest.dropWhile test) := by
  have hskip := skip_after front (rest.takeWhile test) (rest.dropWhile test)
  rwa [List.takeWhile_append_dropWhile] at hskip

/-- What has been read between two places is what is cut out between them. -/
theorem section?_after {front written : List Char} (rest : List Char)
    (h : Text.size (front ++ written) < 2 ^ 32) :
    (after (front ++ written) rest).section? (Position.start.advance front)
      (Position.start.advance (front ++ written)) = some written := by
  have hle : Text.size front ≤ Text.size (front ++ written) := by
    rw [Text.size_append]
    omega
  have hfirst := Position.toNat_offset (Nat.lt_of_le_of_lt hle h)
  have hlast := Position.toNat_offset h
  rw [section?, if_pos, hfirst, hlast]
  · rw [after, Text.slice_append]
  · rw [UInt32.le_iff_toNat_le, hfirst, hlast]
    refine ⟨hle, ?_⟩
    rw [after, Text.size_append (front ++ written)]
    omega

theorem skip_eq (s : Source) (n : Nat) :
    s.skip n = ⟨s.text, s.rest.drop n, s.position.advance (s.rest.take n)⟩ := by
  induction n generalizing s with
  | zero => rfl
  | succ n ih =>
    rw [skip, ih]
    cases hrest : s.rest <;> simp [consume, hrest, Position.advance]

end Source

namespace Token

/-- The first characters of a text are of one byte each. -/
def LowTo (cs : List Char) (k : Nat) : Prop := ∀ c ∈ cs.take k, c.toNat ≤ 127

variable {s : Source} {k : Nat}

theorem isWordChar_range {c : Char} (h : isWordChar c = true) : 48 ≤ c.toNat ∧ c.toNat ≤ 122 := by
  simp only [isWordChar, isWordStart, Decimal.isDigit, Bool.or_eq_true, Bool.and_eq_true,
    decide_eq_true_eq, Char.le_def, UInt32.le_iff_toNat_le] at h
  rcases h with h | (h | h) | rfl
  · change 48 ≤ c.toNat ∧ c.toNat ≤ 57 at h
    omega
  · change 97 ≤ c.toNat ∧ c.toNat ≤ 122 at h
    omega
  · change 65 ≤ c.toNat ∧ c.toNat ≤ 90 at h
    omega
  · decide

theorem toNat_le_of_isWordChar {c : Char} (h : isWordChar c = true) : c.toNat ≤ 127 :=
  Nat.le_trans (isWordChar_range h).2 (by decide)

theorem toNat_le_of_isDigit {c : Char} (h : Decimal.isDigit c = true) : c.toNat ≤ 127 :=
  toNat_le_of_isWordChar (by rw [isWordChar, h, Bool.true_or])

theorem lookahead_any {test : Char → Bool} (htest : ∀ c, test c = true → c.toNat ≤ 127)
    (h : LowTo s.rest k) :
    (s.lookahead k).any (isByteOf test) = (s.rest.drop k).head?.any test :=
  Text.any_isByteOf_byteAt? htest h

theorem lowTo_succ {cs : List Char} {test : Char → Bool}
    (htest : ∀ c, test c = true → c.toNat ≤ 127) (h : LowTo cs k)
    (hnext : (cs.drop k).head?.any test = true) : LowTo cs (k + 1) := by
  intro c hc
  rw [List.take_add_one, List.mem_append] at hc
  rcases hc with hc | hc
  · exact h c hc
  · rw [List.head?_drop] at hnext
    cases hget : cs[k]? with
    | none => simp [hget] at hc
    | some d =>
      simp only [hget, Option.toList_some, List.mem_singleton] at hc
      simp only [hget, Option.any_some] at hnext
      exact hc ▸ htest d hnext

theorem digitsAhead_eq (most : Nat) (h : LowTo s.rest k) :
    digitsAhead s k most = (((s.rest.drop k).take most).takeWhile Decimal.isDigit).length ∧
      LowTo s.rest (k + digitsAhead s k most) := by
  induction most generalizing k with
  | zero => exact ⟨by simp [digitsAhead], h⟩
  | succ most ih =>
    have hany := lookahead_any (fun c hc => toNat_le_of_isDigit hc) h
    unfold digitsAhead
    rw [hany]
    cases hdrop : s.rest.drop k with
    | nil => simpa using h
    | cons c rest =>
      have hrest : s.rest.drop (k + 1) = rest := by
        rw [← List.drop_drop, hdrop, List.drop_succ_cons, List.drop_zero]
      cases hc : Decimal.isDigit c with
      | false => simpa [hc] using h
      | true =>
        have hnext : (s.rest.drop k).head?.any Decimal.isDigit = true := by rw [hdrop]; exact hc
        obtain ⟨hlength, hlow⟩ := ih (lowTo_succ (fun c hc => toNat_le_of_isDigit hc) h hnext)
        rw [hrest] at hlength
        simp only [List.head?_cons, Option.any_some, hc, if_true, List.take_succ_cons,
          List.takeWhile_cons, List.length_cons, hlength, true_and]
        rw [hlength] at hlow
        rwa [Nat.add_assoc, Nat.add_comm 1] at hlow

theorem digitsAhead_eq_digitRun (h : LowTo s.rest k) :
    digitsAhead s k 3 = digitRun (s.rest.drop k) ∧
      LowTo s.rest (k + digitRun (s.rest.drop k)) := by
  obtain ⟨hlength, hlow⟩ := digitsAhead_eq 3 h
  rw [hlength] at hlow
  exact ⟨hlength, hlow⟩

theorem drop_succ_of_drop {cs rest : List Char} {c : Char} (h : cs.drop k = c :: rest) :
    cs.drop (k + 1) = rest := by
  rw [← List.drop_drop, h, List.drop_succ_cons, List.drop_zero]

theorem isMarker_low {c : Char} (h : isMarker c = true) : c.toNat ≤ 127 := by
  simp only [isMarker, Bool.or_eq_true, decide_eq_true_eq] at h
  rcases h with (rfl | rfl) | rfl <;> decide

theorem modifierAhead_eq (h : LowTo s.rest k) :
    modifierAhead s k = modifierLength (s.rest.drop k) ∧
      LowTo s.rest (k + modifierLength (s.rest.drop k)) := by
  have hany := lookahead_any (fun c hc => isMarker_low hc) h
  unfold modifierAhead
  rw [hany]
  cases hdrop : s.rest.drop k with
  | nil => simpa [modifierLength] using h
  | cons c rest =>
    cases hc : isMarker c with
    | false =>
      have hnone : modifierLength (c :: rest) = 0 := by
        rw [modifierLength, show (c = 'r' || c = 'h' || c = 'l') = false from hc]
        rfl
      simpa [hc, hnone] using h
    | true =>
      have hnext : (s.rest.drop k).head?.any isMarker = true := by rw [hdrop]; exact hc
      obtain ⟨hamount, hlow⟩ :=
        digitsAhead_eq_digitRun (lowTo_succ (fun c hc => isMarker_low hc) h hnext)
      rw [drop_succ_of_drop hdrop] at hamount hlow
      have hlength : modifierLength (c :: rest) =
          if true && digitRun rest ≠ 0 then 1 + digitRun rest else 0 := by
        rw [modifierLength, show (c = 'r' || c = 'h' || c = 'l') = true from hc]
      simp only [List.head?_cons, Option.any_some, hc, hamount]
      refine ⟨hlength.symm, ?_⟩
      rw [hlength]
      split
      · rwa [← Nat.add_assoc]
      · exact h

/-- Dice are measured in bytes ahead as they are in characters. -/
theorem diceAhead?_eq (s : Source) : diceAhead? s = diceLength? s.rest := by
  have hstart : LowTo s.rest 0 := by simp [LowTo]
  obtain ⟨hcount, hlow⟩ := digitsAhead_eq_digitRun hstart
  rw [Nat.zero_add, List.drop_zero] at hlow
  have hd : ∀ c : Char, decide (c = 'd') = true → c.toNat ≤ 127 := by
    intro c hc
    rw [of_decide_eq_true hc]
    decide
  have hletter := lookahead_any hd hlow
  unfold diceAhead? diceLength?
  rw [hcount, List.drop_zero]
  dsimp only
  rw [hletter]
  cases hdrop : s.rest.drop (digitRun s.rest) with
  | nil => rfl
  | cons c rest =>
    by_cases hc : c = 'd'
    · subst hc
      have hsides := digitsAhead_eq_digitRun (lowTo_succ hd hlow (by rw [hdrop]; rfl))
      rw [drop_succ_of_drop hdrop] at hsides
      obtain ⟨hsides, hlow⟩ := hsides
      -- what stands behind the letter, in front of each part of the literal
      have hrest : ∀ n, s.rest.drop (digitRun s.rest + 1 + n) = rest.drop n := by
        intro n
        rw [← List.drop_drop, drop_succ_of_drop hdrop]
      obtain ⟨hfirst, hlow⟩ := modifierAhead_eq hlow
      rw [hrest] at hfirst hlow
      obtain ⟨hsecond, hlow⟩ := modifierAhead_eq hlow
      rw [Nat.add_assoc (digitRun s.rest + 1) (digitRun rest), hrest,
        ← Nat.add_assoc] at hsecond hlow
      have hend := lookahead_any (fun c hc => toNat_le_of_isWordChar hc) hlow
      by_cases hzero : digitRun rest = 0
      · simp [hsides, hzero]
      · simp [hsides, hfirst, hsecond, hend, hzero]
    · simp [hc]

/-! ## Tokens -/

open Source

variable {front : List Char}

theorem cut?_after {written : List Char} (kind : List Char → TokenKind) (rest : List Char)
    (h : Text.size (front ++ written) < 2 ^ 32) :
    cut? (after front (written ++ rest)) kind (after (front ++ written) rest) =
      some (⟨kind written, String.ofList written,
        ⟨Position.start.advance front, Position.start.advance (front ++ written)⟩⟩,
        after (front ++ written) rest) := by
  have hsection := section?_after rest h
  unfold cut?
  rw [show (after front (written ++ rest)).position = Position.start.advance front from rfl,
    show (after (front ++ written) rest).position = Position.start.advance (front ++ written)
      from rfl, hsection]
  rfl

/-- The token of a lexeme, behind what stands in front of it, and the source behind it. -/
def placed (front : List Char) (l : Lexeme) : Token × Source :=
  (⟨l.kind, l.text, ⟨Position.start.advance front, Position.start.advance (front ++ l.written)⟩⟩,
    after (front ++ l.written) l.rest)

/-- The first characters of a text are cut out as a lexeme. -/
theorem cut?_plain {cs : List Char} (kind : TokenKind) {n : Nat} (hn : n ≤ cs.length)
    (h : Text.size (front ++ cs.take n) < 2 ^ 32) :
    cut? (after front cs) (fun _ => kind) ((after front cs).skip n) =
      some (placed front (.plain kind n cs)) := by
  have hparts := List.take_append_drop n cs
  have hskip := skip_after front (cs.take n) (cs.drop n)
  have hcut := cut?_after (fun _ => kind) (cs.drop n) h
  rw [List.length_take_of_le hn, hparts] at hskip
  rw [hparts] at hcut
  rw [hskip, hcut]
  rfl

/-- The first characters of one kind are cut out as a lexeme. -/
theorem cut?_takeWhile {cs : List Char} (kind : List Char → TokenKind) (test : Char → Bool)
    (h : Text.size (front ++ cs.take (cs.takeWhile test).length) < 2 ^ 32) :
    cut? (after front cs) kind ((after front cs).skipWhile test) =
      some (placed front (.plain (kind (cs.takeWhile test)) (cs.takeWhile test).length cs)) := by
  have hparts := List.takeWhile_append_dropWhile (p := test) (l := cs)
  have htake : (cs.takeWhile test ++ cs.dropWhile test).take (cs.takeWhile test).length =
      cs.takeWhile test := List.take_left
  have hdrop : (cs.takeWhile test ++ cs.dropWhile test).drop (cs.takeWhile test).length =
      cs.dropWhile test := List.drop_left
  rw [hparts] at htake hdrop
  rw [htake] at h
  have hcut := cut?_after kind (cs.dropWhile test) h
  rw [hparts] at hcut
  rw [skipWhile_after, hcut]
  simp only [placed, Lexeme.plain, htake, hdrop]

/-! ## Literals -/

/-- What a literal contains, and the source behind it. -/
def contentsOf (front cs : List Char) : Option Literal → Contents
  | some l => (some l.contents, after (front ++ l.written) l.rest)
  | none => (none, after (front ++ cs) [])

theorem contentsOf_map (front cs contents written : List Char) (literal : Option Literal) :
    contentsOf front (written ++ cs) (literal.map (.cons contents written)) =
      .cons contents (contentsOf (front ++ written) cs literal) := by
  cases literal with
  | none => simp [contentsOf, Contents.cons]
  | some l => simp [contentsOf, Contents.cons, Literal.cons]

theorem escaped?_eq_some {delimiter d : Char} {cs : List Char}
    (h : escaped? delimiter cs = some d) :
    ∃ rest, cs = '\\' :: d :: rest ∧ (d = delimiter || d = '\\') = true := by
  unfold escaped? at h
  split at h
  · split at h
    · cases h
      exact ⟨_, rfl, ‹_›⟩
    · cases h
  · cases h

/-- Reading a literal goes on behind a character that is no escape. -/
theorem literalAt?_piece {delimiter c : Char} {rest : List Char} (hc : c ≠ delimiter)
    (h : escaped? delimiter (c :: rest) = none) :
    literalAt? delimiter (c :: rest) = (literalAt? delimiter rest).map (.cons [c] [c]) := by
  by_cases hslash : c = '\\'
  · subst hslash
    cases rest with
    | nil =>
      rw [literalAt?_backslash hc]
      rfl
    | cons d rest =>
      refine literalAt?_unescaped hc (fun hd => ?_) rest
      simp [escaped?, hd] at h
  · exact literalAt?_ordinary hc hslash rest

theorem contents?_after {delimiter : Char} {n : Nat} {cs : List Char} (hn : cs.length ≤ n)
    (h : Text.size (front ++ cs) < 2 ^ 32) :
    contents? delimiter n (after front cs) =
      some (contentsOf front cs (literalAt? delimiter cs)) := by
  induction n generalizing front cs with
  | zero =>
    obtain rfl := List.eq_nil_of_length_eq_zero (Nat.le_zero.1 hn)
    simp [contents?, literalAt?, contentsOf]
  | succ n ih =>
    cases cs with
    | nil => simp [contents?, literalAt?, contentsOf, after]
    | cons c rest =>
      rw [List.length_cons] at hn
      have hrest : (after front (c :: rest)).rest = c :: rest := rfl
      unfold contents?
      rw [hrest]
      dsimp only
      by_cases hc : c = delimiter
      · subst hc
        rw [if_pos rfl, literalAt?_delimiter, consume_after]
        rfl
      rw [if_neg hc]
      cases hescaped : escaped? delimiter (c :: rest) with
      -- an escape of two characters, the second of which is what it stands for
      | some d =>
        obtain ⟨rest', heq, hd⟩ := escaped?_eq_some hescaped
        obtain ⟨rfl, rfl⟩ := List.cons.inj heq
        have hskip := skip_after front ['\\', d] rest'
        have hfront : Text.size ((front ++ ['\\', d]) ++ rest') < 2 ^ 32 := by
          rwa [List.append_assoc]
        rw [List.length_cons] at hn
        dsimp only
        rw [literalAt?_escaped hc hd, show '\\' :: d :: rest' = ['\\', d] ++ rest' from rfl,
          contentsOf_map]
        rw [show (after front (['\\', d] ++ rest')).skip 2 = _ from hskip, ih (by omega) hfront]
        rfl
      -- any other character, cut out between its places
      | none =>
        have hfront : Text.size ((front ++ [c]) ++ rest) < 2 ^ 32 := by rwa [List.append_assoc]
        have hsmall : Text.size (front ++ [c]) < 2 ^ 32 := by
          rw [Text.size_append (front ++ [c])] at hfront
          omega
        have hsection := section?_after rest hsmall
        dsimp only
        rw [literalAt?_piece hc hescaped, show c :: rest = [c] ++ rest from rfl, contentsOf_map]
        rw [show [c] ++ rest = c :: rest from rfl, consume_after, ih (by omega) hfront]
        rw [show (after front (c :: rest)).position = Position.start.advance front from rfl,
          show (after (front ++ [c]) rest).position =
            Position.start.advance (front ++ [c]) from rfl, hsection]
        rfl

/-- A literal is read as its lexeme tells. -/
theorem literal?_after (kind : TokenKind) (delimiter : Char) {rest : List Char}
    (h : Text.size (front ++ delimiter :: rest) < 2 ^ 32) :
    literal? kind delimiter (after front (delimiter :: rest)) =
      some (placed front (.delimited kind delimiter rest)) := by
  have hfront : Text.size ((front ++ [delimiter]) ++ rest) < 2 ^ 32 := by rwa [List.append_assoc]
  have hcontents : contents? delimiter (rest.length + 1) (after (front ++ [delimiter]) rest) = _ :=
    contents?_after (Nat.le_succ rest.length) hfront
  unfold literal?
  rw [consume_after, show (after front (delimiter :: rest)).rest.length = rest.length + 1 from rfl,
    hcontents, Lexeme.delimited]
  cases hliteral : literalAt? delimiter rest with
  | some l => simp [contentsOf, placed, after]
  | none =>
    have hall : (delimiter :: rest).take (delimiter :: rest).length = delimiter :: rest :=
      List.take_length
    have hcut := cut?_plain .unknown (Nat.le_refl (delimiter :: rest).length) (hall.symm ▸ h)
    have hskip := skip_after front (delimiter :: rest) []
    rw [List.append_nil] at hskip
    rw [hskip] at hcut
    simp only [contentsOf, List.append_assoc, List.cons_append, List.nil_append,
      Option.bind_eq_bind, Option.bind_some]
    exact hcut

/-! ## Whole texts -/

theorem marks_spelling : ∀ mark ∈ marks, String.ofList mark.1 = mark.2.spelling := by decide

/-- The next token is the first lexeme, if this is no literal and ends at a place that can be told
apart. -/
theorem next?_plain {c : Char} {rest : List Char} (hstring : c ≠ '"') (hstored : c ≠ '\x60')
    (h : Text.size (front ++ (lexeme c rest).written) < 2 ^ 32) :
    next? c (after front (c :: rest)) = some (placed front (lexeme c rest)) := by
  have hdice := diceAhead?_eq (after front (c :: rest))
  have hrest : (after front (c :: rest)).rest = c :: rest := rfl
  rw [hrest] at hdice
  unfold next?
  unfold lexeme at h ⊢
  rw [if_neg hstring, if_neg hstored] at h ⊢
  rw [hdice, hrest, if_neg hstring, if_neg hstored]
  dsimp only at h ⊢
  cases hlength : diceLength? (c :: rest) with
  | some n =>
    rw [hlength] at h
    exact cut?_plain .dice (diceLength?_le hlength) h
  | none =>
    rw [hlength] at h
    dsimp only at h ⊢
    by_cases hstart : isWordStart c = true
    · simp only [if_pos hstart] at h ⊢
      exact cut?_takeWhile wordKind isWordChar h
    simp only [if_neg hstart] at h ⊢
    by_cases hdigit : Decimal.isDigit c = true
    · simp only [if_pos hdigit] at h ⊢
      exact cut?_takeWhile (fun _ => .integer) Decimal.isDigit h
    simp only [if_neg hdigit] at h ⊢
    cases hmark : markAt? (c :: rest) with
    -- a mark is spelled as it is written
    | some found =>
      obtain ⟨mark, kind⟩ := found
      have hprefix : mark.isPrefixOf (c :: rest) = true := by simpa using List.find?_some hmark
      obtain ⟨behind, hbehind⟩ := List.isPrefixOf_iff_prefix.1 hprefix
      have hskip := skip_after front mark behind
      have htake : (mark ++ behind).take mark.length = mark := List.take_left
      have hdrop : (mark ++ behind).drop mark.length = behind := List.drop_left
      rw [hbehind] at hskip htake hdrop
      have hspelling := marks_spelling _ (markAt?_mem hmark)
      dsimp only at hspelling
      simp only [hskip, placed, Lexeme.plain, htake, hdrop, hspelling]
      rfl
    | none =>
      rw [hmark] at h
      exact cut?_plain .unknown (Nat.succ_pos _) h

/-- The next token is the first lexeme. -/
theorem next?_after {c : Char} {rest : List Char} (h : Text.size (front ++ c :: rest) < 2 ^ 32) :
    next? c (after front (c :: rest)) = some (placed front (lexeme c rest)) := by
  by_cases hstring : c = '"'
  · subst hstring
    exact literal?_after .string _ h
  by_cases hstored : c = '\x60'
  · subst hstored
    exact literal?_after .stored _ h
  refine next?_plain hstring hstored ?_
  rw [(lexeme_of c rest).parts, ← List.append_assoc, Text.size_append] at h
  omega

theorem size_placed {c : Char} {rest : List Char} (h : Text.size (front ++ c :: rest) < 2 ^ 32) :
    Text.size ((front ++ (lexeme c rest).written) ++ (lexeme c rest).rest) < 2 ^ 32 := by
  rwa [List.append_assoc, ← (lexeme_of c rest).parts]

theorem scanFrom_after {n : Nat} {cs : List Char} (hn : cs.length ≤ n)
    (h : Text.size (front ++ cs) < 2 ^ 32) :
    scanFrom n (after front cs) =
      some ((lexFrom n (Position.start.advance front) cs).1, after (front ++ cs) []) := by
  induction n generalizing front cs with
  | zero =>
    obtain rfl := List.eq_nil_of_length_eq_zero (Nat.le_zero.1 hn)
    simp [scanFrom, lexFrom]
  | succ n ih =>
    cases cs with
    | nil => simp [scanFrom, lexFrom, after]
    | cons c rest =>
      have hlength := lexeme_rest_length c rest
      rw [List.length_cons] at hn
      unfold scanFrom lexFrom
      rw [show (after front (c :: rest)).rest = c :: rest from rfl]
      dsimp only
      split
      · have hfront : Text.size ((front ++ [c]) ++ rest) < 2 ^ 32 := by rwa [List.append_assoc]
        rw [consume_after, ih (by omega) hfront, Position.advance_append, List.append_assoc]
        rfl
      · rw [next?_after h]
        simp only [placed, Option.bind_eq_bind, Option.bind_some]
        rw [ih (by omega) (size_placed h), List.append_assoc, ← (lexeme_of c rest).parts,
          Position.advance_append]
        rfl

/-- The tokens of a text of fewer than 2 ^ 32 bytes are those that its characters tell. -/
theorem scan_of_small {text : String} (h : text.utf8ByteSize < 2 ^ 32) :
    scan text = some ((lex text.toList).1, after text.toList []) := by
  have hsize : Text.size ([] ++ text.toList) < 2 ^ 32 := by
    rwa [List.nil_append, ← Text.utf8ByteSize_eq_size]
  exact scanFrom_after (Nat.le_refl _) hsize

theorem tokenize_of_small {text : String} (h : text.utf8ByteSize < 2 ^ 32) :
    tokenize text = some (lexed text) := by
  have hlast := (lex_scanned text.toList).last_eq
  unfold tokenize lexed
  rw [scan_of_small h, hlast]
  rfl

/-! ## Texts of any length -/

/-- A token is read, and what is behind it. -/
theorem scanFrom_token {c : Char} {rest : List Char} {s next : Source} {t : Token} (n : Nat)
    (hrest : s.rest = c :: rest) (hc : isSeparator c = false) (hnext : next? c s = some (t, next)) :
    scanFrom (n + 1) s = (scanFrom n next).map fun r => (t :: r.1, r.2) := by
  rw [scanFrom, hrest]
  simp only [hc, Bool.false_eq_true, if_false, hnext, Option.bind_eq_bind, Option.bind_some]
  cases scanFrom n next <;> rfl
/-- Separators are passed, however many there are. -/
theorem scanFrom_separators {cs rest : List Char} (hcs : ∀ c ∈ cs, isSeparator c = true) (n : Nat)
    {s : Source} (hrest : s.rest = cs ++ rest) :
    scanFrom (cs.length + n) s = scanFrom n ⟨s.text, rest, s.position.advance cs⟩ := by
  induction cs generalizing s with
  | nil => rw [show rest = s.rest from hrest.symm, List.length_nil, Nat.zero_add]; rfl
  | cons c cs ih =>
    obtain ⟨hc, hcs⟩ := List.forall_mem_cons.1 hcs
    rw [List.cons_append] at hrest
    have hconsume : s.consume = { s with rest := cs ++ rest, position := s.position.next c } := by
      rw [Source.consume, hrest]
    rw [List.length_cons, Nat.add_right_comm, scanFrom, hrest]
    dsimp only
    rw [if_pos hc, ih hcs (by rw [hconsume]), hconsume]
    rfl

/-- Behind as many blanks as there are offsets, a place is where it was. -/
theorem advance_blanks (p : Position) {k : Nat} (hk : UInt32.ofNat k = 0) :
    p.advance (List.replicate k ' ') = p := by
  have hblanks : ∀ n, p.advance (List.replicate n ' ') = ⟨p.line, p.offset + UInt32.ofNat n⟩ := by
    intro n
    induction n with
    | zero => simp [Position.advance]
    | succ n ih =>
      rw [List.replicate_succ', Position.advance_append, ih, UInt32.ofNat_add, ← UInt32.add_assoc]
      rfl
  rw [hblanks, hk, UInt32.add_zero]

section

variable {s last : Source} {t : Token}

/-- What is cut out between two places is no longer than their offsets tell. -/
theorem cut?_eq_some {kind : List Char → TokenKind} {end_ : Source}
    (h : cut? s kind end_ = some (t, last)) : ∃ text,
      t = ⟨kind text, String.ofList text, ⟨s.position, end_.position⟩⟩ ∧ last = end_ ∧
      s.position.offset ≤ end_.position.offset ∧
      Text.size text ≤ end_.position.offset.toNat - s.position.offset.toNat := by
  obtain ⟨text, hsection, heq⟩ := Option.bind_eq_some_iff.1 h
  cases heq
  unfold Source.section? at hsection
  split at hsection
  · rename_i hle
    cases hsection
    exact ⟨_, rfl, rfl, hle.1, Text.size_slice_le _ _ _⟩
  · cases hsection

theorem wordKind_mem (word : List Char) :
    wordKind word ∈ [TokenKind.forWord, .ifWord, .elseWord, .identifier] := by
  unfold wordKind
  dsimp only
  split_ifs <;> simp

theorem marks_fixed : ∀ mark ∈ marks, mark.2.varies = false ∧ mark.2 ≠ .finish := by decide

/-- A token of a text of any length is no mark of the end, and the name in an identifier can be
counted. -/
structure IsCut (t : Token) : Prop where
  kind_ne_finish : t.kind ≠ .finish
  identifier : t.kind = .identifier → Text.size t.text.toList < 2 ^ 32

theorem IsCut.of_kind (hfinish : t.kind ≠ .finish) (hidentifier : t.kind ≠ .identifier) : IsCut t :=
  ⟨hfinish, fun h => absurd h hidentifier⟩

theorem cut?_isCut {kind : List Char → TokenKind} {end_ : Source} (hkind : ∀ cs, kind cs ≠ .finish)
    (h : cut? s kind end_ = some (t, last)) : IsCut t := by
  obtain ⟨text, rfl, -, -, hsize⟩ := cut?_eq_some h
  refine ⟨hkind text, fun _ => ?_⟩
  have hlast := end_.position.offset.toNat_lt
  rw [String.toList_ofList]
  omega

theorem cut?_kind {kind : TokenKind} {end_ : Source}
    (h : cut? s (fun _ => kind) end_ = some (t, last)) : t.kind = kind := by
  obtain ⟨text, rfl, -⟩ := cut?_eq_some h
  rfl

theorem literal?_kind {kind : TokenKind} {delimiter : Char}
    (h : literal? kind delimiter s = some (t, last)) : t.kind = kind ∨ t.kind = .unknown := by
  obtain ⟨⟨contents, end_⟩, -, htoken⟩ := Option.bind_eq_some_iff.1 h
  cases contents with
  | some contents =>
    cases htoken
    exact .inl rfl
  | none => exact .inr (cut?_kind htoken)

theorem literal?_isCut {kind : TokenKind} {delimiter : Char} (hfinish : kind ≠ .finish)
    (hidentifier : kind ≠ .identifier) (h : literal? kind delimiter s = some (t, last)) :
    IsCut t := by
  rcases literal?_kind h with hkind | hkind
  · exact .of_kind (hkind ▸ hfinish) (hkind ▸ hidentifier)
  · exact .of_kind (hkind ▸ by decide) (hkind ▸ by decide)

theorem next?_isCut {c : Char} (h : next? c s = some (t, last)) : IsCut t := by
  unfold next? at h
  split at h
  · exact literal?_isCut (by decide) (by decide) h
  split at h
  · exact literal?_isCut (by decide) (by decide) h
  split at h
  · exact cut?_isCut (fun _ => by decide) h
  split at h
  · exact cut?_isCut wordKind_ne_finish h
  split at h
  · exact cut?_isCut (fun _ => by decide) h
  split at h
  · rename_i mark kind hmark
    cases h
    obtain ⟨hfixed, hfinish⟩ := marks_fixed _ (markAt?_mem hmark)
    refine .of_kind hfinish fun hidentifier => ?_
    rw [show kind = .identifier from hidentifier] at hfixed
    cases hfixed
  · exact cut?_isCut (fun _ => by decide) h

/-- A token of dice is cut out where dice were found. -/
theorem next?_dice {c : Char} (h : next? c s = some (t, last)) (hkind : t.kind = .dice) :
    ∃ n, diceAhead? s = some n ∧ cut? s (fun _ => .dice) (s.skip n) = some (t, last) := by
  have hliteral : ∀ {kind : TokenKind}, kind ≠ .dice → literal? kind c s ≠ some (t, last) := by
    intro kind hne h
    rcases literal?_kind h with h | h
    · exact hne (h.symm.trans hkind)
    · cases h.symm.trans hkind
  unfold next? at h
  split at h
  · exact absurd h (hliteral (by decide))
  split at h
  · exact absurd h (hliteral (by decide))
  split at h
  · rename_i n hn
    exact ⟨n, hn, h⟩
  split at h
  · obtain ⟨text, rfl, -⟩ := cut?_eq_some h
    have hword := wordKind_mem text
    rw [show wordKind text = .dice from hkind] at hword
    simp at hword
  split at h
  · cases (cut?_kind h).symm.trans hkind
  split at h
  · rename_i mark kind hmark
    cases h
    have hfixed := (marks_fixed _ (markAt?_mem hmark)).1
    rw [show kind = .dice from hkind] at hfixed
    cases hfixed
  · cases (cut?_kind h).symm.trans hkind

/-- What holds of every next token holds of all tokens of a text. -/
theorem forall_mem_scan {P : Token → Prop}
    (hnext : ∀ c s t last, next? c s = some (t, last) → P t) {text : String} {tokens : List Token}
    (h : scan text = some (tokens, last)) : ∀ t ∈ tokens, P t := by
  have hfrom : ∀ n s tokens last, scanFrom n s = some (tokens, last) → ∀ t ∈ tokens, P t := by
    intro n
    induction n with
    | zero =>
      rintro s tokens last ⟨⟩ t ⟨⟩
    | succ n ih =>
      intro s tokens last h
      unfold scanFrom at h
      split at h
      · cases h
        exact List.forall_mem_nil _
      split at h
      · exact ih _ _ _ h
      · obtain ⟨⟨token, mid⟩, htoken, h⟩ := Option.bind_eq_some_iff.1 h
        obtain ⟨⟨rest, end_⟩, hrest, heq⟩ := Option.bind_eq_some_iff.1 h
        cases heq
        exact List.forall_mem_cons.2 ⟨hnext _ _ _ _ htoken, ih _ _ _ hrest⟩
  exact hfrom _ _ _ _ h

end

end Token

end DiceScript
