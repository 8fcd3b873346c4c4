import DiceScript.Proofs.Token.Joined

/-!
Words written one after another. A word needs no separator behind it where what follows cannot be
part of it: a bracket, a comma or a colon is a token by itself, and a name or a numeral ends at
whatever is no part of a word.
-/

namespace DiceScript.Token

/-! ## One word -/

/-- Characters are read as a word in front of what follows them. -/
def Lexes (written : List Char) (w : Word) (rest : List Char) : Prop :=
  ∃ c cs, written = c :: cs ∧ isSeparator c = false ∧
    lexeme c (cs ++ rest) = ⟨w.kind, w.text, written, rest⟩

/-- What is read as a word is a token, and then what follows it is read. -/
theorem Lexes.scanned {written rest : List Char} {w : Word} (h : Lexes written w rest)
    {p last : Position} {tokens : List Token}
    (hrest : Scanned (p.advance written) rest tokens last) :
    Scanned p (written ++ rest) (⟨w.kind, w.text, ⟨p, p.advance written⟩⟩ :: tokens) last := by
  obtain ⟨c, cs, rfl, hc, hlexeme⟩ := h
  have hafter : Scanned (p.advance (lexeme c (cs ++ rest)).written) (lexeme c (cs ++ rest)).rest
      tokens last := by
    rw [hlexeme]
    exact hrest
  have htoken := Scanned.token hc hafter
  rw [hlexeme] at htoken
  exact htoken

/-- A word on its own is the same in front of what does not go on with it. -/
theorem Spelled.lexes {w : Word} {c : Char} {cs : List Char} (h : Spelled w c cs) {rest : List Char}
    (hrest : ∀ s ∈ rest.head?, if isWordChar c then isWordChar s = false else endsMark s = true) :
    Lexes w.text.toList w rest := by
  have hparts := (lexeme_of c cs).parts
  rw [h.rest, List.append_nil] at hparts
  have halone : lexeme c cs = ⟨w.kind, w.text, c :: cs, []⟩ := by
    rw [← h.kind, ← h.lexeme_text, hparts, ← h.rest]
  rw [h.text]
  refine ⟨c, cs, rfl, h.no_separator, ?_⟩
  cases rest with
  | nil => rw [List.append_nil, halone]
  | cons s rest => rw [lexeme_append_of h.no_string h.no_stored (hrest s rfl), halone]; rfl

/-- The only mark that begins with a character is that character. -/
def aloneAs (c : Char) (kind : TokenKind) : Bool :=
  marks.filter (fun mark => mark.1.head? = some c) == [([c], kind)]

theorem markAt?_alone {c : Char} {kind : TokenKind} (h : aloneAs c kind = true) (rest : List Char) :
    markAt? (c :: rest) = some ([c], kind) := by
  have hfound : (marks.filter fun mark => mark.1.head? = some c).find?
      (fun mark => mark.1.isPrefixOf (c :: rest)) = some ([c], kind) := by
    rw [eq_of_beq h]
    simp [List.isPrefixOf]
  rw [List.find?_filter] at hfound
  rw [markAt?, ← hfound]
  refine List.find?_congr fun mark hmark => ?_
  -- a mark that the text begins with begins with its first character
  cases hchars : mark.1 with
  | nil => exact absurd hchars (marks_proper mark hmark).1
  | cons m chars =>
    simp only [List.isPrefixOf, List.head?_cons]
    rw [Bool.eq_iff_iff]
    by_cases hm : m = c <;> simp [hm]

theorem marks_no_word : ∀ mark ∈ marks, ∀ c ∈ mark.1, isWordChar c = false := by
  have hall : (marks.all fun mark => mark.1.all fun c => !isWordChar c) = true := by decide
  intro mark hmark c hc
  simpa using List.all_eq_true.1 (List.all_eq_true.1 hall mark hmark) c hc

/-- A mark that no other begins with is read whatever follows it. -/
theorem mark_lexes {c : Char} {kind : TokenKind} (h : aloneAs c kind = true)
    (htext : kind.spelling = String.ofList [c]) (rest : List Char) :
    Lexes [c] (.mark kind) rest := by
  have hmem : ([c], kind) ∈ marks := by
    have hfilter : ([c], kind) ∈ marks.filter fun mark => mark.1.head? = some c := by
      rw [eq_of_beq h]
      exact List.mem_singleton_self _
    exact (List.mem_filter.1 hfilter).1
  obtain ⟨hseparator, hstring, hstored, -⟩ := marks_spelled _ hmem c [] rfl
  have hword := marks_no_word _ hmem c (List.mem_singleton_self c)
  obtain ⟨hdigit, hstart⟩ := Bool.or_eq_false_iff.1 hword
  refine ⟨c, [], rfl, hseparator, ?_⟩
  rw [List.nil_append]
  unfold lexeme
  dsimp only
  rw [if_neg hstring, if_neg hstored, diceLength?_eq_none hword, hstart, hdigit,
    markAt?_alone h rest]
  simp [Lexeme.plain, Word.mark, htext]

/-- Any mark is read in front of what no mark goes on with. -/
theorem mark_lexes_before (kind : TokenKind) (h : (kind.spelling.toList, kind) ∈ marks)
    {rest : List Char} (hrest : ∀ s ∈ rest.head?, endsMark s = true) :
    Lexes kind.spelling.toList (.mark kind) rest := by
  obtain ⟨c, cs, hspelled⟩ := mark_spelled h
  have hc : c ∈ kind.spelling.toList := by
    rw [show kind.spelling.toList = c :: cs from hspelled.text]
    exact List.mem_cons_self
  refine hspelled.lexes fun s hs => ?_
  rw [marks_no_word _ h c hc, if_neg Bool.false_ne_true]
  exact hrest s hs

/-! ## What tokens begin with -/

/-- A token is a literal, dice, a word, a number, a mark or a character of its own. -/
inductive Begins (c : Char) (cs : List Char) : Lexeme → Prop
  | literal {l : Lexeme} (hkind : l.kind = .string ∨ l.kind = .stored ∨ l.kind = .unknown) :
      Begins c cs l
  | dice {n : Nat} (hdice : diceLength? (c :: cs) = some n) :
      Begins c cs (.plain .dice n (c :: cs))
  | word (hstring : c ≠ '"') (hstored : c ≠ '\x60') (hdice : diceLength? (c :: cs) = none)
      (hc : isWordStart c = true) :
      Begins c cs (.plain (wordKind ((c :: cs).takeWhile isWordChar))
        ((c :: cs).takeWhile isWordChar).length (c :: cs))
  | integer (n : Nat) : Begins c cs (.plain .integer n (c :: cs))
  | mark {chars : List Char} {kind : TokenKind} (hmark : (chars, kind) ∈ marks)
      (hleading : chars.isPrefixOf (c :: cs) = true) :
      Begins c cs (.plain kind chars.length (c :: cs))
  | unknown (n : Nat) : Begins c cs (.plain .unknown n (c :: cs))

theorem lexeme_begins (c : Char) (cs : List Char) : Begins c cs (lexeme c cs) := by
  have hdelimited : ∀ kind, (kind = .string ∨ kind = .stored) →
      Begins c cs (.delimited kind c cs) := by
    intro kind hkind
    unfold Lexeme.delimited
    split
    · exact .literal (hkind.imp_right .inl)
    · exact .unknown _
  unfold lexeme
  dsimp only
  split
  · exact hdelimited _ (.inl rfl)
  · rename_i hstring
    split
    · exact hdelimited _ (.inr rfl)
    · rename_i hstored
      split
      · rename_i n hdice
        exact .dice hdice
      · rename_i hdice
        split
        · rename_i hstart
          exact .word hstring hstored hdice hstart
        · split
          · exact .integer _
          · split
            · rename_i mark kind hmark
              refine .mark (markAt?_mem hmark) ?_
              simpa using List.find?_some hmark
            · exact .unknown 1

theorem wordKind_is_word (word : List Char) :
    wordKind word ∈ [.forWord, .ifWord, .elseWord, .identifier] := by
  unfold wordKind
  dsimp only
  split
  · decide
  · split
    · decide
    · split <;> decide

/-- Only the curly bracket itself is read as one that closes. -/
theorem closeCurly_begins {c : Char} {cs : List Char} (h : (lexeme c cs).kind = .closeCurly) :
    c = '\x7d' := by
  have hbegins := lexeme_begins c cs
  generalize lexeme c cs = l at h hbegins
  cases hbegins with
  | literal hkind =>
    rw [h] at hkind
    simp at hkind
  | dice => cases h
  | word _ _ _ hc =>
    have hword := wordKind_is_word ((c :: cs).takeWhile isWordChar)
    rw [show wordKind ((c :: cs).takeWhile isWordChar) = .closeCurly from h] at hword
    simp at hword
  | integer n => cases h
  | mark hmark hleading =>
    have hall : ∀ mark ∈ marks, mark.2 = .closeCurly → mark.1 = ['\x7d'] := by decide
    have hchars := hall _ hmark h
    simp only at hchars
    subst hchars
    simp only [List.isPrefixOf, Bool.and_eq_true, beq_iff_eq] at hleading
    exact hleading.1.symm
  | unknown n => cases h

/-- An identifier is a word and no dice. -/
theorem identifier_begins {c : Char} {cs : List Char} (h : (lexeme c cs).kind = .identifier) :
    (c ≠ '"' ∧ c ≠ '\x60') ∧ diceLength? (c :: cs) = none ∧ isWordStart c = true ∧
      wordKind ((c :: cs).takeWhile isWordChar) = .identifier ∧
      (lexeme c cs).text = String.ofList ((c :: cs).takeWhile isWordChar) := by
  have hbegins := lexeme_begins c cs
  generalize lexeme c cs = l at h hbegins
  cases hbegins with
  | literal hkind =>
    rw [h] at hkind
    simp at hkind
  | dice => cases h
  | word hstring hstored hdice hc =>
    refine ⟨⟨hstring, hstored⟩, hdice, hc, h, ?_⟩
    show String.ofList ((c :: cs).take _) = _
    rw [← List.prefix_iff_eq_take.1 (List.takeWhile_prefix isWordChar)]
  | integer n => cases h
  | mark hmark hleading =>
    have hall : ∀ mark ∈ marks, mark.2 ≠ .identifier := by decide
    exact absurd h (hall _ hmark)
  | unknown n => cases h

/-- A word that is no dice is none on its own. -/
theorem diceLength?_takeWhile {c : Char} {cs : List Char} (h : diceLength? (c :: cs) = none) :
    diceLength? (c :: cs.takeWhile isWordChar) = none := by
  have hsplit := List.takeWhile_append_dropWhile (p := isWordChar) (l := cs)
  cases hrest : cs.dropWhile isWordChar with
  | nil =>
    rw [hrest, List.append_nil] at hsplit
    rwa [hsplit]
  | cons s rest =>
    have hs : isWordChar s = false := by
      have hhead := List.head?_dropWhile_not isWordChar cs
      rw [hrest] at hhead
      simpa using hhead
    rwa [← hsplit, hrest, ← List.cons_append, diceLength?_append hs] at h

/-- The text of an identifier is read as that identifier on its own. -/
theorem identifier_spelled {c : Char} {cs : List Char} (hc : isSeparator c = false)
    (h : (lexeme c cs).kind = .identifier) :
    ∃ d ds, Spelled (.identifier (lexeme c cs).text) d ds := by
  obtain ⟨⟨hstring, hstored⟩, hdice, hstart, hkind, htext⟩ := identifier_begins h
  have hword : isWordChar c = true := by simp [isWordChar, hstart]
  rw [List.takeWhile_cons, if_pos hword] at hkind htext
  -- the word is all of its own run, and no dice either
  have hrun :
      (c :: cs.takeWhile isWordChar).takeWhile isWordChar = c :: cs.takeWhile isWordChar := by
    rw [List.takeWhile_eq_self_iff]
    exact List.forall_mem_cons.2 ⟨hword, fun d hd => List.mem_takeWhile_imp hd⟩
  have hnone := diceLength?_takeWhile hdice
  have hlexeme : lexeme c (cs.takeWhile isWordChar) =
      .plain .identifier (c :: cs.takeWhile isWordChar).length (c :: cs.takeWhile isWordChar) := by
    unfold lexeme
    dsimp only
    rw [if_neg hstring, if_neg hstored, hnone, hrun, hkind]
    simp only [hstart, if_true]
  refine ⟨c, cs.takeWhile isWordChar, ?_, hc, hstring, hstored, ?_, ?_⟩
  · show (lexeme c cs).text.toList = _
    rw [htext, String.toList_ofList]
  · rw [hlexeme]
    rfl
  · rw [hlexeme, Lexeme.plain, List.drop_length]

/-- A name is read in front of whatever is no part of a word. -/
theorem identifier_lexes {name : String} (h : ∃ c cs, Spelled (.identifier name) c cs)
    {rest : List Char} (hrest : ∀ s ∈ rest.head?, isWordChar s = false) :
    Lexes name.toList (.identifier name) rest := by
  obtain ⟨c, cs, hspelled⟩ := h
  obtain ⟨-, -, hstart, -⟩ := identifier_begins hspelled.kind
  refine hspelled.lexes fun s hs => ?_
  rw [if_pos (show isWordChar c = true by simp [isWordChar, hstart])]
  exact hrest s hs

/-! ## Words one after another -/

/-- Characters show words in front of what follows them. -/
inductive Shows : List Word → List Char → List Char → Prop
  | nil (rest : List Char) : Shows [] [] rest
  | separator {ws : List Word} {c : Char} {cs rest : List Char} (hc : isSeparator c = true)
      (hrest : Shows ws cs rest) : Shows ws (c :: cs) rest
  | word {w : Word} {ws : List Word} {written cs rest : List Char}
      (hword : Lexes written w (cs ++ rest)) (hrest : Shows ws cs rest) :
      Shows (w :: ws) (written ++ cs) rest

namespace Shows

variable {ws ws' : List Word} {cs cs' rest : List Char}

theorem append (h : Shows ws cs (cs' ++ rest)) (h' : Shows ws' cs' rest) :
    Shows (ws ++ ws') (cs ++ cs') rest := by
  generalize hbehind : cs' ++ rest = behind at h
  induction h with
  | nil behind => exact h'
  | separator hc _ ih => exact .separator hc (ih hbehind)
  | word hword _ ih =>
    subst hbehind
    rw [← List.append_assoc] at hword
    rw [List.append_assoc, List.cons_append]
    exact .word hword (ih rfl)

/-- A word alone. -/
theorem single {w : Word} {written : List Char} (h : Lexes written w rest) :
    Shows [w] written rest := by
  have hnil : Shows [w] (written ++ []) rest := .word h (.nil rest)
  rwa [List.append_nil] at hnil

/-- What shows words is read as these words, and then as what follows. -/
theorem scanned (h : Shows ws cs rest) {p last : Position} {tokens : List Token}
    (hrest : Scanned (p.advance cs) rest tokens last) :
    ∃ ts, ts.map Token.word = ws ∧ Scanned p (cs ++ rest) (ts ++ tokens) last := by
  induction h generalizing p with
  | nil rest => exact ⟨[], rfl, hrest⟩
  | @separator ws c cs rest hc _ ih =>
    obtain ⟨ts, hwords, hts⟩ := ih hrest
    exact ⟨ts, hwords, .separator hc hts⟩
  | @word w ws written cs rest hword _ ih =>
    rw [Position.advance_append] at hrest
    obtain ⟨ts, rfl, hts⟩ := ih hrest
    rw [List.append_assoc]
    exact ⟨_ :: ts, rfl, hword.scanned hts⟩

/-- The tokens of a text that shows words are the words. -/
theorem words (h : Shows ws cs []) : (lex cs).1.map Token.word = ws := by
  obtain ⟨ts, hwords, hts⟩ := h.scanned (p := .start) (.nil _)
  rw [List.append_nil, List.append_nil] at hts
  rw [((lex_scanned cs).unique hts).1, hwords]

/-- Where nothing can be scanned behind words, nothing can be scanned in front of them. None of the
words is a literal. -/
theorem scanFrom_eq_none (h : Shows ws cs rest) {front : List Char}
    (hplain : ∀ c ∈ cs, c ≠ '"' ∧ c ≠ '\x60') (hsmall : Text.size (front ++ cs) < 2 ^ 32)
    (hrest : ∀ n, 0 < n → scanFrom n (Source.after (front ++ cs) rest) = none) :
    ∀ n, cs.length < n → scanFrom n (Source.after front (cs ++ rest)) = none := by
  induction h generalizing front with
  | nil rest =>
    rw [List.append_nil] at hrest
    exact hrest
  | @separator ws c cs rest hc _ ih =>
    intro n hn
    obtain ⟨n, rfl⟩ := Nat.exists_eq_add_one_of_ne_zero (Nat.ne_zero_of_lt hn)
    rw [show front ++ c :: cs = front ++ [c] ++ cs by simp] at hsmall hrest
    have hbehind := ih (List.forall_mem_cons.1 hplain).2 hsmall hrest n (Nat.lt_of_succ_lt_succ hn)
    rw [← Source.consume_after] at hbehind
    show (if isSeparator c then scanFrom n _ else _) = none
    rw [if_pos hc]
    exact hbehind
  | @word w ws written cs rest hword _ ih =>
    intro n hn
    obtain ⟨n, rfl⟩ := Nat.exists_eq_add_one_of_ne_zero (Nat.ne_zero_of_lt hn)
    obtain ⟨c, inner, rfl, hc, hlexeme⟩ := hword
    obtain ⟨hfirst, hplain⟩ := List.forall_mem_append.1 hplain
    obtain ⟨hstring, hstored⟩ := hfirst c List.mem_cons_self
    rw [← List.append_assoc] at hsmall hrest
    rw [List.length_append, List.length_cons] at hn
    have hbehind := ih hplain hsmall hrest n (by omega)
    rw [Text.size_append] at hsmall
    have hfirst : Text.size (front ++ (lexeme c (inner ++ (cs ++ rest))).written) < 2 ^ 32 := by
      rw [hlexeme]
      exact Nat.lt_of_le_of_lt (Nat.le_add_right _ _) hsmall
    have hnext := next?_plain hstring hstored hfirst
    rw [hlexeme] at hnext
    rw [List.append_assoc, List.cons_append]
    show (if isSeparator c then _ else _) = none
    rw [if_neg (by rw [hc]; decide)]
    show (next? c (Source.after front (c :: (inner ++ (cs ++ rest))))).bind _ = none
    rw [hnext, Option.bind_some]
    show (scanFrom n (Source.after (front ++ c :: inner) (cs ++ rest))).bind _ = none
    rw [hbehind]
    rfl
end Shows

end DiceScript.Token
