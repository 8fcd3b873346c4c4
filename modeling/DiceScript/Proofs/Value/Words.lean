import DiceScript.Proofs.Token.Written
import DiceScript.Proofs.Value.Aliases
import DiceScript.Proofs.Value.Discipline

/-!
Values as they are written. The text of a value that is made of numbers, strings, ranges, pairs and
arrays shows words, if none of its strings has a character in it that means something else between
quotes.
-/

namespace DiceScript

/-! ## Numbers -/

namespace Word

/-- The word of a string. -/
def string (s : String) : Word := ⟨.string, s⟩

end Word

/-- The words of a number, which has a minus in front if it is negative. -/
def Integer.words (n : Integer) : List Word :=
  match n.toInt with
  | .ofNat k => [.numeral k]
  | .negSucc k => [.mark .minus, .numeral (k + 1)]

namespace Token

theorem endsMark_of_word {c : Char} (h : isWordChar c = true) : endsMark c = true := by
  refine List.all_eq_true.2 fun mark hmark => ?_
  have hno : c ∉ mark.1.tail := by
    intro hc
    rw [marks_no_word mark hmark c (List.mem_of_mem_tail hc)] at h
    cases h
  simpa using hno

/-- A numeral begins with a digit. -/
theorem numeral_begins (k : Nat) :
    ∃ c cs, Spelled (.numeral k) c cs ∧ isWordChar c = true := by
  obtain ⟨c, cs, hspelled⟩ := numeral_spelled k
  have hc : c ∈ (Decimal.text k).toList := by
    rw [show (Decimal.text k).toList = c :: cs from hspelled.text]
    exact List.mem_cons_self
  exact ⟨c, cs, hspelled, by simp [isWordChar, Decimal.isDigit_of_mem_text hc]⟩

theorem numeral_lexes (k : Nat) {rest : List Char}
    (hrest : ∀ s ∈ rest.head?, isWordChar s = false) :
    Lexes (Decimal.text k).toList (.numeral k) rest := by
  obtain ⟨c, cs, hspelled, hword⟩ := numeral_begins k
  refine hspelled.lexes fun s hs => ?_
  rw [if_pos hword]
  exact hrest s hs

theorem endsMark_numeral (k : Nat) (rest : List Char) :
    ∀ s ∈ ((Decimal.text k).toList ++ rest).head?, endsMark s = true := by
  obtain ⟨c, cs, hspelled, hword⟩ := numeral_begins k
  rw [show (Decimal.text k).toList = c :: cs from hspelled.text]
  intro s hs
  cases hs
  exact endsMark_of_word hword

/-- No mark goes on with the text of a number. -/
theorem endsMark_number (n : Integer) (rest : List Char) :
    ∀ s ∈ (n.text.toList ++ rest).head?, endsMark s = true := by
  unfold Integer.text
  cases n.toInt with
  | ofNat k => exact endsMark_numeral k rest
  | negSucc k =>
    rw [String.toList_append]
    intro s hs
    cases hs
    decide

/-- The text of a number is read in front of whatever is no part of a word. -/
theorem number_shows (n : Integer) {rest : List Char}
    (hrest : ∀ s ∈ rest.head?, isWordChar s = false) :
    Shows n.words n.text.toList rest := by
  unfold Integer.words Integer.text
  cases n.toInt with
  | ofNat k => exact .single (numeral_lexes k hrest)
  | negSucc k =>
    have hminus : Lexes ['-'] (.mark .minus) ((Decimal.text (k + 1)).toList ++ rest) :=
      mark_lexes_before .minus (by decide) (endsMark_numeral (k + 1) rest)
    rw [String.toList_append]
    exact .word hminus (.single (numeral_lexes (k + 1) hrest))

/-! ## Strings -/

/-- Whether quotes around a text give a literal of that text: no quote in it ends the literal, and
no backslash in it stands in front of another or in front of the closing quote. -/
def isQuotable : List Char → Bool
  | [] => true
  | c :: cs => c != '"' && (c != '\\' || cs.head?.any (· != '\\')) && isQuotable cs

theorem isQuotable_cons {c : Char} {cs : List Char} :
    isQuotable (c :: cs) = true ↔
      c ≠ '"' ∧ (c = '\\' → ∃ d ds, cs = d :: ds ∧ d ≠ '\\') ∧ isQuotable cs = true := by
  cases cs with
  | nil => simp [isQuotable]
  | cons d ds => simp [isQuotable, imp_iff_not_or, and_assoc]

theorem literalAt?_of_quotable {cs : List Char} (h : isQuotable cs = true) (rest : List Char) :
    literalAt? '"' (cs ++ '"' :: rest) = some ⟨cs, cs ++ ['"'], rest⟩ := by
  induction cs with
  | nil => exact literalAt?_delimiter rest
  | cons c cs ih =>
    obtain ⟨hquote, hslash, hcs⟩ := isQuotable_cons.1 h
    have hinner := ih hcs
    rw [List.cons_append]
    by_cases hc : c = '\\'
    -- a backslash stands for itself in front of a character that is neither of the two
    · obtain ⟨d, ds, rfl, hd⟩ := hslash hc
      have hd' : d ≠ '"' := (isQuotable_cons.1 hcs).1
      subst hc
      rw [List.cons_append] at hinner ⊢
      rw [literalAt?_unescaped hquote (by simp [hd, hd']), hinner]
      rfl
    · rw [literalAt?_ordinary hquote hc, hinner]
      rfl

/-- A literal is written with at least as many characters as it contains, and the closing quote. -/
theorem literalAt?_contents_lt {delimiter : Char} (cs : List Char) {l : Literal}
    (h : literalAt? delimiter cs = some l) : l.contents.length < l.written.length := by
  fun_induction literalAt? delimiter cs generalizing l with
  | case1 => cases h
  | case2 rest =>
    cases h
    exact Nat.zero_lt_one
  | case3 => cases h
  | case4 d rest hd hne ih =>
    obtain ⟨inner, hinner, rfl⟩ := Option.map_eq_some_iff.mp h
    exact Nat.lt_succ_of_lt (Nat.succ_lt_succ (ih hinner))
  | case5 d rest hd hne ih =>
    obtain ⟨inner, hinner, rfl⟩ := Option.map_eq_some_iff.mp h
    exact Nat.succ_lt_succ (ih hinner)
  | case6 c rest hne hc ih =>
    obtain ⟨inner, hinner, rfl⟩ := Option.map_eq_some_iff.mp h
    exact Nat.succ_lt_succ (ih hinner)

/-- A literal without an escape in it contains a text that can stand between quotes. -/
theorem isQuotable_of_literalAt? (cs : List Char) {l : Literal} (h : literalAt? '"' cs = some l)
    (hlength : l.written.length = l.contents.length + 1) : isQuotable l.contents = true := by
  generalize hdelimiter : '"' = delimiter at h
  fun_induction literalAt? delimiter cs generalizing l with
  | case1 => cases h
  | case2 rest =>
    cases h
    rfl
  | case3 => cases h
  -- an escape is written with one character more than it stands for
  | case4 d rest hd hne ih =>
    obtain ⟨inner, hinner, rfl⟩ := Option.map_eq_some_iff.mp h
    have hlt := literalAt?_contents_lt rest hinner
    simp only [Literal.cons, List.length_append, List.length_cons, List.length_nil] at hlength
    omega
  | case5 d rest hd hne ih =>
    obtain ⟨inner, hinner, rfl⟩ := Option.map_eq_some_iff.mp h
    simp only [Literal.cons, List.length_append, List.length_cons, List.length_nil] at hlength
    have hquotable := ih (by omega) hinner
    simp only [Bool.or_eq_true, decide_eq_true_eq, not_or] at hd
    have hhead : ∃ ds, inner.contents = d :: ds := by
      rw [literalAt?_ordinary hd.1 hd.2] at hinner
      obtain ⟨innermost, -, rfl⟩ := Option.map_eq_some_iff.mp hinner
      exact ⟨_, rfl⟩
    obtain ⟨ds, hds⟩ := hhead
    exact isQuotable_cons.2 ⟨by decide, fun _ => ⟨d, ds, hds, hd.2⟩, hquotable⟩
  | case6 c rest hne hc ih =>
    obtain ⟨inner, hinner, rfl⟩ := Option.map_eq_some_iff.mp h
    simp only [Literal.cons, List.length_append, List.length_cons, List.length_nil] at hlength
    have hquotable := ih (by omega) hinner
    exact isQuotable_cons.2 ⟨hdelimiter ▸ hne, fun h => absurd h hc, hquotable⟩

/-- A text between quotes is read as that text, and no character more, exactly if it can stand
between them. -/
theorem isQuotable_iff (cs rest : List Char) :
    isQuotable cs = true ↔
      ∃ written, literalAt? '"' (cs ++ '"' :: rest) = some ⟨cs, written, rest⟩ := by
  constructor
  · exact fun h => ⟨_, literalAt?_of_quotable h rest⟩
  · rintro ⟨written, h⟩
    have hparts := congrArg List.length (literalAt?_parts _ h)
    simp only [List.length_append, List.length_cons] at hparts
    have hlength : written.length = cs.length + 1 := by omega
    exact isQuotable_of_literalAt? _ h hlength

/-- Such a text between quotes is a word, whatever follows. -/
theorem string_lexes {s : String} (h : isQuotable s.toList = true) (rest : List Char) :
    Lexes ("\"" ++ s ++ "\"").toList (.string s) rest := by
  have htext : ("\"" ++ s ++ "\"").toList = '"' :: (s.toList ++ ['"']) := by simp
  refine ⟨'"', s.toList ++ ['"'], htext, by decide, ?_⟩
  have hliteral := literalAt?_of_quotable h rest
  have hsplit : s.toList ++ ['"'] ++ rest = s.toList ++ '"' :: rest := by simp
  rw [lexeme, if_pos rfl, Lexeme.delimited, hsplit, hliteral, htext]
  simp [Word.string]

end Token

/-! ## Values -/

namespace Value

/-- The values that are made of numbers, strings, ranges, pairs with strings for keys, and arrays
with the aliases of their elements. -/
inductive Data : Value → Prop
  | int (n : Integer) : Data (.int n)
  | str (s : String) : Data (.str s)
  | range (r : Range) : Data (.range r)
  | pair (key : String) {v : Value} (hv : Data v) : Data (.pair (.str key) v)
  | array {elements : List Value} {keys : Option Aliases}
      (hkeys : (Items.mk elements keys).Faithful) (helements : ∀ v ∈ elements, Data v) :
      Data (.array elements keys)

/-- Whether quotes around a string keep it as it is. Nothing else has quotes. -/
def isQuotable : Value → Bool
  | .str s => Token.isQuotable s.toList
  | _ => true

mutual

/-- The words of a value inside another. -/
def words : Value → List Word
  | .int n => n.words
  | .str s => [.string s]
  | .range r => r.lower.words ++ .mark .dotDot :: r.upper.words
  | .pair key value => key.words ++ .mark .colon :: value.words
  | .array elements _ => .mark .openSquare :: (listed elements ++ [.mark .closeSquare])
  | _ => []

/-- The words of elements, with commas between them. -/
def listed : List Value → List Word
  | [] => []
  | [v] => v.words
  | v :: vs => v.words ++ .mark .comma :: listed vs

end

open Token in
theorem mark_and_space_show {c : Char} {kind : TokenKind} (h : aloneAs c kind = true)
    (htext : kind.spelling = String.ofList [c]) {ws : List Word} {cs rest : List Char}
    (hrest : Shows ws cs rest) : Shows (.mark kind :: ws) ([c] ++ ' ' :: cs) rest :=
  .word (mark_lexes h htext _) (.separator rfl hrest)

open Token in
/-- Elements are read in front of a bracket, with a comma and a space between them. -/
theorem listed_show {elements : List Value}
    (h : ∀ v ∈ elements, ∀ rest : List Char, (∀ s ∈ rest.head?, isWordChar s = false) →
      Shows v.words (v.textWithin true).toList rest) (rest : List Char) :
    Shows (listed elements) (String.intercalate ", " (texts elements)).toList (']' :: rest) := by
  induction elements with
  | nil =>
    rw [texts, String.intercalate_nil]
    exact .nil _
  | cons v vs ih =>
    obtain ⟨hv, hvs⟩ := List.forall_mem_cons.1 h
    cases vs with
    | nil =>
      rw [texts, texts, String.intercalate_singleton]
      refine hv _ fun s hs => ?_
      cases hs
      rfl
    | cons w vs =>
      have hrest : Shows (.mark .comma :: listed (w :: vs))
          (", ".toList ++ (String.intercalate ", " (texts (w :: vs))).toList) (']' :: rest) :=
        mark_and_space_show (by decide) rfl (ih hvs)
      rw [texts, texts, String.intercalate_cons_cons, ← texts, String.toList_append,
        String.toList_append, List.append_assoc]
      refine .append (hv _ fun s hs => ?_) hrest
      cases hs
      rfl

open Token in
/-- The text of a value inside another shows the words of the value. -/
theorem Data.shows {v : Value} (h : v.Data)
    (hquotable : ∀ w : Value, w.Occurs v → w.isQuotable = true) (rest : List Char)
    (hrest : ∀ s ∈ rest.head?, isWordChar s = false) :
    Shows v.words (v.textWithin true).toList rest := by
  induction h generalizing rest with
  | int n => exact number_shows n hrest
  | str s => exact .single (string_lexes (hquotable _ .here) rest)
  | range r =>
    have hdots : Lexes ['.', '.'] (.mark .dotDot) (r.upper.text.toList ++ rest) :=
      mark_lexes_before .dotDot (by decide) (endsMark_number r.upper rest)
    have hupper :
        Shows (.mark .dotDot :: r.upper.words) ("..".toList ++ r.upper.text.toList) rest :=
      .word hdots (number_shows r.upper hrest)
    rw [textWithin, Range.text, String.toList_append, String.toList_append, List.append_assoc]
    refine .append (number_shows r.lower fun s hs => ?_) hupper
    cases hs
    rfl
  | @pair key v hv ih =>
    have hvalue := ih (fun w hw => hquotable w (.value hw)) rest hrest
    have hafter :
        Shows (.mark .colon :: v.words) (": ".toList ++ (v.textWithin true).toList) rest :=
      mark_and_space_show (by decide) rfl hvalue
    rw [textWithin, String.toList_append, String.toList_append, List.append_assoc]
    exact .append (.single (string_lexes (hquotable _ (.key .here)) _)) hafter
  | @array elements keys hkeys helements ih =>
    have hclosing : Shows [.mark .closeSquare] [']'] rest := .single (mark_lexes (by decide) rfl _)
    have hlisted := listed_show (fun v hv => ih v hv fun w hw => hquotable w (.element hv hw)) rest
    rw [textWithin, String.toList_append, String.toList_append, List.append_assoc]
    exact .word (mark_lexes (by decide) rfl _) (.append hlisted hclosing)

end Value

end DiceScript
