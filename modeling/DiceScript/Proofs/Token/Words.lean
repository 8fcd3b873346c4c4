import DiceScript.Proofs.Grammar.Printing
import DiceScript.Proofs.Integer
import DiceScript.Proofs.Token.Places

/-!
Texts made of words with separators between them. A separator ends every word, so the tokens of such
a text are its words.
-/

namespace DiceScript

/-! ## Numerals -/

namespace Decimal

theorem toList_text (n : Nat) : (text n).toList = Nat.toDigits 10 n := by
  rw [text, String.toList_ofList]

theorem isDigit_of_mem_text {n : Nat} {c : Char} (h : c ∈ (text n).toList) : isDigit c = true := by
  rw [toList_text] at h
  exact Nat.isDigit_of_mem_toDigits (by decide) (by decide) h

theorem value_text (n : Nat) : value (text n).toList = n := by
  rw [toList_text]
  exact Nat.ofDigitChars_ten_toDigits

theorem read?_text (n : Nat) : read? (text n).toList = some n := by
  have hne : (text n).toList ≠ [] := by
    rw [toList_text]
    exact Nat.toDigits_ne_nil
  have hall : (text n).toList.all isDigit = true :=
    List.all_eq_true.mpr fun c hc => isDigit_of_mem_text hc
  rw [read?, hall, value_text]
  simp [hne]

end Decimal

namespace Integer

/-- A numeral begins with a digit, so it is read without a sign. -/
theorem read?_text (n : Nat) : read? (Decimal.text n).toList = ofInt? n := by
  have hsign : ∀ sign rest, (Decimal.text n).toList = sign :: rest →
      Decimal.isDigit sign = true := fun sign rest heq =>
    Decimal.isDigit_of_mem_text (heq ▸ List.mem_cons_self)
  rw [read?, Decimal.read?_text, Option.bind_some]
  · intro digits heq
    exact absurd (hsign _ _ heq) (by decide)
  · intro digits heq
    exact absurd (hsign _ _ heq) (by decide)

/-- A number that is not negative is read back from its numeral. -/
theorem read?_numeral {n : Integer} (h : 0 ≤ n) :
    read? (Decimal.text n.toInt.toNat).toList = some n := by
  have hpos : 0 ≤ n.toInt := by simpa [Int64.le_iff_toInt_le] using h
  rw [read?_text, Int.toNat_of_nonneg hpos, ofInt?_toInt]

end Integer

namespace Token

/-! ## What ends a token -/

/-- Whether no mark goes on with a character. -/
def endsMark (c : Char) : Bool := marks.all fun mark => !mark.1.tail.contains c

/-- Whether a character ends every token in front of it that is no literal: no word, number or dice
goes on with it, and no mark does. -/
def endsToken (c : Char) : Bool := !isWordChar c && endsMark c

theorem endsToken_of_separator {c : Char} (h : isSeparator c = true) : endsToken c = true := by
  simp only [isSeparator, Bool.or_eq_true, decide_eq_true_eq] at h
  rcases h with ((rfl | rfl) | rfl) | rfl <;> decide

/-- What a character that no word goes on with is not. -/
theorem no_word_goes_on {c : Char} (h : isWordChar c = false) :
    Decimal.isDigit c = false ∧ c ≠ 'd' ∧ c ≠ 'r' ∧ c ≠ 'h' ∧ c ≠ 'l' := by
  refine ⟨(Bool.or_eq_false_iff.1 h).1, ?_, ?_, ?_, ?_⟩ <;> rintro rfl <;> cases h

section

variable {α : Type} {test : α → Bool} {a : α}

theorem takeWhile_append_stop (ha : test a = false) (xs ys : List α) :
    (xs ++ a :: ys).takeWhile test = xs.takeWhile test := by
  induction xs with
  | nil => simp [ha]
  | cons x xs ih =>
    cases hx : test x
    · simp [hx]
    · simp [hx, ih]

theorem takeWhile_take_append_stop (ha : test a = false) (n : Nat) (xs ys : List α) :
    ((xs ++ a :: ys).take n).takeWhile test = (xs.take n).takeWhile test := by
  induction n generalizing xs with
  | zero => simp
  | succ n ih =>
    cases xs with
    | nil => simp [ha]
    | cons x xs =>
      cases hx : test x
      · simp [hx]
      · simp [hx, ih]

theorem isPrefixOf_append_stop [BEq α] [LawfulBEq α] (mark xs ys : List α) (ha : a ∉ mark) :
    mark.isPrefixOf (xs ++ a :: ys) = mark.isPrefixOf xs := by
  induction mark generalizing xs with
  | nil => simp
  | cons m mark ih =>
    have hne : m ≠ a := fun h => ha (h ▸ List.mem_cons_self)
    cases xs with
    | nil => simp [List.isPrefixOf, hne]
    | cons x xs => simp [List.isPrefixOf, ih xs (fun h => ha (List.mem_cons_of_mem m h))]

end

variable {s : Char}

theorem digitRun_append (hs : isWordChar s = false) (xs ys : List Char) :
    digitRun (xs ++ s :: ys) = digitRun xs := by
  rw [digitRun, takeWhile_take_append_stop (no_word_goes_on hs).1, digitRun]

theorem modifierLength_append (hs : isWordChar s = false) (xs ys : List Char) :
    modifierLength (xs ++ s :: ys) = modifierLength xs := by
  obtain ⟨-, -, hr, hh, hl⟩ := no_word_goes_on hs
  cases xs with
  | nil => simp [modifierLength, hr, hh, hl]
  | cons x xs => simp only [List.cons_append, modifierLength, digitRun_append hs]

theorem head?_any_append (hs : isWordChar s = false) (xs ys : List Char) :
    (xs ++ s :: ys).head?.any isWordChar = xs.head?.any isWordChar := by
  cases xs with
  | nil => simp [hs]
  | cons x xs => rfl

theorem diceLength?_append (hs : isWordChar s = false) (xs ys : List Char) :
    diceLength? (xs ++ s :: ys) = diceLength? xs := by
  have hcount := digitRun_le xs
  unfold diceLength?
  simp only [digitRun_append hs, List.drop_append_of_le_length hcount]
  cases hrest : xs.drop (digitRun xs) with
  -- the end of the token stands where the letter of the dice would have to stand
  | nil =>
    split
    · rename_i rest heq
      exact absurd (List.cons.inj heq).1 (no_word_goes_on hs).2.1
    · rfl
  | cons c rest =>
    by_cases hd : c = 'd'
    · subst hd
      have htail := dice_tail_le rest
      have hlength := congrArg List.length hrest
      rw [List.length_drop, List.length_cons] at hlength
      have hsides := digitRun_le rest
      -- every run ends inside the word, so none of them sees what ends it
      have hfirst : digitRun rest + modifierLength (rest.drop (digitRun rest)) ≤ rest.length := by
        omega
      simp only [List.cons_append, digitRun_append hs, List.drop_append_of_le_length hsides,
        modifierLength_append hs, List.drop_append_of_le_length hfirst]
      rw [List.drop_append_of_le_length (by omega), head?_any_append hs]
    · simp [hd]

theorem markAt?_append (hs : endsMark s = true) (c : Char) (xs ys : List Char) :
    markAt? (c :: (xs ++ s :: ys)) = markAt? (c :: xs) := by
  refine List.find?_congr fun mark hmark => ?_
  have hgo := List.all_eq_true.1 hs mark hmark
  cases hchars : mark.1 with
  | nil => rfl
  | cons m rest =>
    have hrest : s ∉ rest := by simpa [hchars] using hgo
    simp only [List.isPrefixOf, isPrefixOf_append_stop rest xs ys hrest]

theorem plain_append (kind : TokenKind) {n : Nat} {xs : List Char} (hn : n ≤ xs.length)
    (ys : List Char) :
    Lexeme.plain kind n (xs ++ ys) =
      { Lexeme.plain kind n xs with rest := (Lexeme.plain kind n xs).rest ++ ys } := by
  simp only [Lexeme.plain, List.take_append_of_le_length hn, List.drop_append_of_le_length hn]

/-- Dice, words and numbers begin with a character that can stand in a word. -/
theorem diceLength?_eq_none {c : Char} (hc : isWordChar c = false) (cs : List Char) :
    diceLength? (c :: cs) = none := by
  obtain ⟨hdigit, hd, -⟩ := no_word_goes_on hc
  simp [diceLength?, digitRun, hdigit, hd]

/-- A token that is no literal ends in front of a character that no word goes on with, if it begins
like a word or a number, and else in front of one that no mark goes on with, whatever follows. -/
theorem lexeme_append_of {c : Char} (hc : c ≠ '"') (hc' : c ≠ '\x60')
    (hs : if isWordChar c then isWordChar s = false else endsMark s = true) (xs ys : List Char) :
    lexeme c (xs ++ s :: ys) =
      { lexeme c xs with rest := (lexeme c xs).rest ++ s :: ys } := by
  have hsplit : c :: (xs ++ s :: ys) = (c :: xs) ++ s :: ys := rfl
  unfold lexeme
  dsimp only
  rw [if_neg hc, if_neg hc', if_neg hc, if_neg hc']
  cases hword : isWordChar c with
  -- such a token is measured by runs of characters that stand in words
  | true =>
    rw [hword, if_pos rfl] at hs
    rw [hsplit, diceLength?_append hs, takeWhile_append_stop hs,
      takeWhile_append_stop (no_word_goes_on hs).1]
    split
    · rename_i n hn
      exact plain_append .dice (diceLength?_le hn) _
    split
    · exact plain_append _ (List.takeWhile_sublist _).length_le _
    split
    · exact plain_append _ (List.takeWhile_sublist _).length_le _
    rename_i hstart hdigit
    simp only [isWordChar, hstart, hdigit, Bool.or_self] at hword
    cases hword
  -- such a token is found in the table of marks
  | false =>
    rw [hword, if_neg Bool.false_ne_true] at hs
    obtain ⟨hdigit, hstart⟩ := Bool.or_eq_false_iff.1 hword
    rw [diceLength?_eq_none hword, diceLength?_eq_none hword, hdigit, hstart, markAt?_append hs,
      hsplit]
    simp only [Bool.false_eq_true, if_false]
    split
    · rename_i mark kind hmark
      exact plain_append kind (markAt?_length_le hmark) _
    · exact plain_append _ (Nat.succ_pos _) _

/-- A token that is no literal is ended by a character that ends tokens, whatever follows it. -/
theorem lexeme_append {c : Char} (hc : c ≠ '"') (hc' : c ≠ '\x60') (hs : endsToken s = true)
    (xs ys : List Char) :
    lexeme c (xs ++ s :: ys) =
      { lexeme c xs with rest := (lexeme c xs).rest ++ s :: ys } := by
  obtain ⟨hword, hmark⟩ := Bool.and_eq_true_iff.1 hs
  refine lexeme_append_of hc hc' ?_ xs ys
  split
  · simpa using hword
  · exact hmark

/-! ## Words on their own -/

/-- A lexeme that is no literal has the text it is written with. -/
theorem lexeme_text {c : Char} (hc : c ≠ '"') (hc' : c ≠ '\x60') (cs : List Char) :
    (lexeme c cs).text = String.ofList (lexeme c cs).written := by
  unfold lexeme
  dsimp only
  rw [if_neg hc, if_neg hc']
  split
  · rfl
  split
  · rfl
  split
  · rfl
  split <;> rfl

/-- The text of a word is read as that word. -/
structure Spelled (w : Word) (c : Char) (cs : List Char) : Prop where
  text : w.text.toList = c :: cs
  no_separator : isSeparator c = false
  no_string : c ≠ '"'
  no_stored : c ≠ '\x60'
  kind : (lexeme c cs).kind = w.kind
  rest : (lexeme c cs).rest = []

theorem Spelled.lexeme_text {w : Word} {c : Char} {cs : List Char} (h : Spelled w c cs) :
    (lexeme c cs).text = w.text := by
  have hparts := (lexeme_of c cs).parts
  rw [h.rest, List.append_nil] at hparts
  rw [Token.lexeme_text h.no_string h.no_stored, ← hparts, ← h.text, String.ofList_toList]

theorem marks_spelled : ∀ mark ∈ marks, ∀ c cs, mark.1 = c :: cs →
    isSeparator c = false ∧ c ≠ '"' ∧ c ≠ '\x60' ∧ (lexeme c cs).kind = mark.2 ∧
      (lexeme c cs).rest = [] := by
  intro mark hmark c cs heq
  -- the table is short enough to be gone through
  have hall : ∀ mark ∈ marks, mark.1.head?.all (fun c =>
      isSeparator c = false ∧ c ≠ '"' ∧ c ≠ '\x60' ∧ (lexeme c mark.1.tail).kind = mark.2 ∧
        (lexeme c mark.1.tail).rest = []) = true := by decide
  simpa [heq] using hall mark hmark

theorem mark_spelled {kind : TokenKind} (h : (kind.spelling.toList, kind) ∈ marks) :
    ∃ c cs, Spelled (.mark kind) c cs := by
  obtain ⟨c, cs, htext⟩ := List.exists_cons_of_ne_nil (marks_proper _ h).1
  obtain ⟨hseparator, hstring, hstored, hkind, hrest⟩ := marks_spelled _ h c cs htext
  exact ⟨c, cs, htext, hseparator, hstring, hstored, hkind, hrest⟩

theorem digit_begins_no_word {c : Char} (h : Decimal.isDigit c = true) :
    isSeparator c = false ∧ isWordStart c = false ∧ c ≠ '"' ∧ c ≠ '\x60' ∧ c ≠ 'd' := by
  simp only [Decimal.isDigit, Bool.and_eq_true, decide_eq_true_eq] at h
  obtain ⟨hlow, hhigh⟩ := h
  have hne : ∀ d : Char, ¬ ('0' ≤ d ∧ d ≤ '9') → c ≠ d := fun d hd heq => hd (heq ▸ ⟨hlow, hhigh⟩)
  have hstart : isWordStart c = false := by
    have hlower : ¬ 'a' ≤ c := fun hc => absurd (Char.le_trans hc hhigh) (by decide)
    have hupper : ¬ 'A' ≤ c := fun hc => absurd (Char.le_trans hc hhigh) (by decide)
    simp [isWordStart, hlower, hupper, hne '_' (by decide)]
  refine ⟨?_, hstart, hne _ (by decide), hne _ (by decide), hne _ (by decide)⟩
  simp [isSeparator, hne ' ' (by decide), hne '\t' (by decide), hne '\n' (by decide),
    hne '\r' (by decide)]

theorem diceLength?_digits {cs : List Char} (h : ∀ c ∈ cs, Decimal.isDigit c = true) :
    diceLength? cs = none := by
  unfold diceLength?
  dsimp only
  split
  · rename_i rest hrest
    have hmem : 'd' ∈ cs := List.mem_of_mem_drop (hrest ▸ List.mem_cons_self)
    exact absurd rfl (digit_begins_no_word (h 'd' hmem)).2.2.2.2
  · rfl

theorem numeral_spelled (n : Nat) : ∃ c cs, Spelled (.numeral n) c cs := by
  have hne : (Decimal.text n).toList ≠ [] := by
    rw [Decimal.toList_text]
    exact Nat.toDigits_ne_nil
  obtain ⟨c, cs, htext⟩ := List.exists_cons_of_ne_nil hne
  have hdigits : ∀ d ∈ c :: cs, Decimal.isDigit d = true :=
    fun d hd => Decimal.isDigit_of_mem_text (htext ▸ hd)
  have hdigit := hdigits c List.mem_cons_self
  obtain ⟨hseparator, hstart, hstring, hstored, -⟩ := digit_begins_no_word hdigit
  have hall : (c :: cs).takeWhile Decimal.isDigit = c :: cs := by
    rw [List.takeWhile_eq_self_iff]
    exact hdigits
  -- digits alone are no dice and begin no word, so they are a number up to their end
  have hlexeme : lexeme c cs = .plain .integer (c :: cs).length (c :: cs) := by
    unfold lexeme
    dsimp only
    rw [if_neg hstring, if_neg hstored, diceLength?_digits hdigits]
    simp only [hstart, hdigit, hall, if_true, Bool.false_eq_true, if_false]
  refine ⟨c, cs, htext, hseparator, hstring, hstored, ?_, ?_⟩
  · rw [hlexeme]
    rfl
  · rw [hlexeme, Lexeme.plain, List.drop_length]

/-- The first token of a text, with what stands around it. -/
theorem Scanned.first {p last : Position} {cs : List Char} {t : Token} {tokens : List Token}
    (h : Scanned p cs (t :: tokens) last) :
    ∃ gap c rest, cs = gap ++ c :: rest ∧ isSeparator c = false ∧
      t.kind = (lexeme c rest).kind ∧ t.text = (lexeme c rest).text := by
  generalize hts : t :: tokens = ts at h
  induction h with
  | nil p => cases hts
  | @separator p last c cs ts hc hrest ih =>
    obtain ⟨gap, d, rest, rfl, hd⟩ := ih hts
    exact ⟨c :: gap, d, rest, rfl, hd⟩
  | @token p last c cs ts hc hrest ih =>
    cases hts
    exact ⟨[], c, cs, rfl, hc, rfl, rfl⟩

theorem delimited_ne_identifier {kind : TokenKind} {delimiter : Char} {rest : List Char}
    (hkind : kind ≠ .identifier) : (Lexeme.delimited kind delimiter rest).kind ≠ .identifier := by
  unfold Lexeme.delimited
  split
  · exact hkind
  · show TokenKind.unknown ≠ .identifier
    decide

/-- A name is cut out as a whole, so it is short enough for its places. -/
theorem lexed_of_isName {name : String} (h : Grammar.IsName name) :
    (lexed name).map word = [.identifier name, ⟨.finish, ""⟩] := by
  obtain ⟨tokens, htokens, hwords⟩ := Option.map_eq_some_iff.1 h
  obtain ⟨⟨ts, last⟩, hscan, heq⟩ := Option.bind_eq_some_iff.1 htokens
  cases heq
  rw [List.map_append] at hwords
  have hsplit : ts.map word ++ [⟨.finish, ""⟩] = [.identifier name] ++ [⟨.finish, ""⟩] := hwords
  obtain ⟨t, rfl, ht⟩ := List.map_eq_singleton_iff.1 (List.append_cancel_right hsplit)
  have hsize := (forall_mem_scan (fun _ _ _ _ => next?_isCut) hscan t List.mem_cons_self).identifier
    (congrArg Word.kind ht)
  rw [show t.text = name from congrArg Word.text ht, ← Text.utf8ByteSize_eq_size] at hsize
  rw [tokenize_of_small hsize] at htokens
  rw [Option.some.inj htokens, List.map_append]
  exact hwords

theorem name_spelled {name : String} (h : Grammar.IsName name) :
    ∃ c cs, Spelled (.identifier name) c cs := by
  obtain ⟨t, ts, htokens, ht, -⟩ := List.map_eq_cons_iff.mp (lexed_of_isName h)
  have hscanned := lex_scanned name.toList
  -- the identifier is the first token, since the mark of the end is none
  obtain ⟨rest, hscan⟩ : ∃ rest, (lex name.toList).1 = t :: rest := by
    rw [show lexed name = (lex name.toList).1 ++ [_] from rfl] at htokens
    cases hscan : (lex name.toList).1 with
    | nil =>
      rw [hscan] at htokens
      cases htokens
      cases ht
    | cons u rest =>
      rw [hscan] at htokens
      exact ⟨rest, by rw [(List.cons.inj htokens).1]⟩
  rw [hscan] at hscanned
  obtain ⟨gap, c, cs, htext, hseparator, hkind, hname⟩ := hscanned.first
  have hidentifier : (lexeme c cs).kind = .identifier := by
    rw [← hkind]
    exact congrArg Word.kind ht
  have hstring : c ≠ '"' := by
    rintro rfl
    exact delimited_ne_identifier (by decide) hidentifier
  have hstored : c ≠ '\x60' := by
    rintro rfl
    exact delimited_ne_identifier (by decide) hidentifier
  have hwritten : (lexeme c cs).written = name.toList := by
    have htext' : t.text = name := congrArg Word.text ht
    rw [← htext', hname, Token.lexeme_text hstring hstored, String.toList_ofList]
  -- the name is as long as what its identifier is written with, so nothing stands around it
  have hparts := (lexeme_of c cs).parts
  have hlength := congrArg List.length htext
  rw [hparts, ← hwritten, List.length_append, List.length_append] at hlength
  obtain rfl : gap = [] := List.eq_nil_of_length_eq_zero (by omega)
  exact ⟨c, cs, htext, hseparator, hstring, hstored, hidentifier,
    List.eq_nil_of_length_eq_zero (by omega)⟩

/-! ## Texts of words -/

/-- A text that shows words: separators stand between them, and may stand at its ends. -/
inductive Spaced : List Word → List Char → Prop
  | nil {gap : List Char} (hgap : ∀ c ∈ gap, isSeparator c = true) : Spaced [] gap
  | cons {w : Word} {ws : List Word} {gap rest : List Char}
      (hgap : ∀ c ∈ gap, isSeparator c = true) (hbreak : ∀ c ∈ rest.head?, isSeparator c = true)
      (hrest : Spaced ws rest) : Spaced (w :: ws) (gap ++ w.text.toList ++ rest)

/-- Words with a blank in front of each. -/
def spaced (ws : List Word) : List Char := ws.flatMap fun w => ' ' :: w.text.toList

theorem spaced_shows (ws : List Word) : Spaced ws (spaced ws) := by
  induction ws with
  | nil => exact .nil nofun
  | cons w ws ih =>
    show Spaced (w :: ws) ([' '] ++ w.text.toList ++ spaced ws)
    refine .cons (List.forall_mem_singleton.2 rfl) ?_ ih
    cases ws with
    | nil => nofun
    | cons v ws =>
      intro c hc
      cases hc
      rfl

theorem Scanned.of_gap {p last : Position} {gap cs : List Char} {tokens : List Token}
    (hgap : ∀ c ∈ gap, isSeparator c = true) (h : Scanned p (gap ++ cs) tokens last) :
    ∃ q, Scanned q cs tokens last := by
  induction gap generalizing p with
  | nil => exact ⟨p, h⟩
  | cons c gap ih =>
    cases h with
    | separator hc hrest => exact ih (fun d hd => hgap d (List.mem_cons_of_mem c hd)) hrest
    | token hc hrest =>
      rw [hgap c List.mem_cons_self] at hc
      cases hc

/-- A word is read in front of the end and of a separator as it is on its own. -/
theorem Spelled.lexeme_before {w : Word} {c : Char} {cs : List Char} (h : Spelled w c cs)
    {rest : List Char} (hbreak : ∀ d ∈ rest.head?, isSeparator d = true) :
    (lexeme c (cs ++ rest)).kind = w.kind ∧ (lexeme c (cs ++ rest)).text = w.text ∧
      (lexeme c (cs ++ rest)).rest = rest := by
  cases rest with
  | nil =>
    rw [List.append_nil]
    exact ⟨h.kind, h.lexeme_text, h.rest⟩
  | cons s rest =>
    rw [lexeme_append h.no_string h.no_stored (endsToken_of_separator (hbreak s rfl))]
    exact ⟨h.kind, h.lexeme_text, by simp [h.rest]⟩

theorem Spaced.words {ws : List Word} {cs : List Char} (h : Spaced ws cs)
    (hws : ∀ w ∈ ws, ∃ c cs, Spelled w c cs) {p last : Position} {tokens : List Token}
    (hscanned : Scanned p cs tokens last) : tokens.map word = ws := by
  induction h generalizing p tokens with
  | @nil gap hgap =>
    rw [← List.append_nil gap] at hscanned
    obtain ⟨q, hnil⟩ := hscanned.of_gap hgap
    cases hnil
    rfl
  | @cons w ws gap rest hgap hbreak hrest ih =>
    rw [List.append_assoc] at hscanned
    obtain ⟨q, hword⟩ := hscanned.of_gap hgap
    obtain ⟨c, cs, hspelled⟩ := hws w List.mem_cons_self
    obtain ⟨hkind, htext, hafter⟩ := hspelled.lexeme_before hbreak
    rw [hspelled.text, List.cons_append] at hword
    -- behind the gap a word begins, and it is read up to the next separator
    cases hword with
    | separator hc hrest =>
      rw [hspelled.no_separator] at hc
      cases hc
    | token hc hnext =>
      rw [hafter] at hnext
      have hothers := ih (fun v hv => hws v (List.mem_cons_of_mem w hv)) hnext
      rw [List.map_cons, hothers, word, hkind, htext]

/-- The tokens of a text that shows words are the words. -/
theorem scan_spaced {ws : List Word} {cs : List Char} (h : Spaced ws cs)
    (hws : ∀ w ∈ ws, ∃ c cs, Spelled w c cs) : (lex cs).1.map word = ws :=
  h.words hws (lex_scanned cs)

end Token

namespace Grammar

theorem printedMarks_mem_marks :
    ∀ kind ∈ printedMarks, (kind.spelling.toList, kind) ∈ Token.marks := by decide

/-- The words of an expression are read as they are written. -/
theorem Printed.spelled {l : Level} {e : Expr} {ws : List Word} (h : Printed l e ws) :
    ∀ w ∈ ws, ∃ c cs, Token.Spelled w c cs :=
  h.forall_word Token.numeral_spelled (fun _ hname => Token.name_spelled hname)
    fun kind hkind => Token.mark_spelled (printedMarks_mem_marks kind hkind)

end Grammar

end DiceScript
