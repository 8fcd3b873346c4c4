import DiceScript.Proofs.Dice
import DiceScript.Proofs.Token.Cut
import DiceScript.Proofs.Token.Partition
import DiceScript.Proofs.Token.Written

/-!
Where dice stand in a text. The scanner looks ahead byte by byte and never turns back, yet it finds
a dice literal exactly where one stands that no identifier goes on behind. What it finds is then
read without fail, since numbers of three digits fit everywhere.
-/

namespace DiceScript

/-! ## Numbers of few digits -/

namespace Decimal

theorem digitValue_le {c : Char} (h : isDigit c = true) : digitValue c ≤ 9 := by
  simp only [isDigit, Bool.and_eq_true, decide_eq_true_eq] at h
  have hle : c.toNat ≤ '9'.toNat := h.2
  have hnine : '9'.toNat = 57 := rfl
  have hzero : '0'.toNat = 48 := rfl
  rw [digitValue]
  omega

theorem value_lt {cs : List Char} (h : ∀ c ∈ cs, isDigit c = true) : value cs < 10 ^ cs.length := by
  -- every digit makes room for one more
  have hfold : ∀ n bound, n < bound →
      cs.foldl (fun n c => 10 * n + digitValue c) n < bound * 10 ^ cs.length := by
    induction cs with
    | nil =>
      intro n bound hn
      simpa using hn
    | cons c cs ih =>
      intro n bound hn
      obtain ⟨hc, hcs⟩ := List.forall_mem_cons.1 h
      have hdigit := digitValue_le hc
      have hnext := ih hcs (10 * n + digitValue c) (bound * 10) (by omega)
      rwa [List.foldl_cons, List.length_cons, Nat.pow_succ', ← Nat.mul_assoc]
  simpa [value] using hfold 0 1 Nat.zero_lt_one

end Decimal

/-! ## Short literals -/

namespace DiceLiteral

/-- One to three digits. -/
structure IsRun (cs : List Char) : Prop where
  ne_nil : cs ≠ []
  digits : ∀ c ∈ cs, Decimal.isDigit c = true
  length_le : cs.length ≤ 3

/-- A letter that has a meaning, and one to three digits. -/
structure IsShortModifier (m : Char × List Char) : Prop where
  marker : m.1 = 'r' ∨ m.1 = 'h' ∨ m.1 = 'l'
  run : IsRun m.2

/-- No number of the literal has more than three digits, and there are at most two modifiers. -/
structure Short (l : DiceLiteral) : Prop where
  count_digits : ∀ c ∈ l.count, Decimal.isDigit c = true
  count_length : l.count.length ≤ 3
  sides : IsRun l.sides
  modifiers : ∀ m ∈ l.modifiers, IsShortModifier m
  modifiers_length : l.modifiers.length ≤ 2

variable {l : DiceLiteral} {m : Char × List Char} {ms : List (Char × List Char)}
  {cs tail : List Char}

theorem value_lt_thousand (h : ∀ c ∈ cs, Decimal.isDigit c = true) (hlength : cs.length ≤ 3) :
    Decimal.value cs < 1000 :=
  Nat.lt_of_lt_of_le (Decimal.value_lt h) (Nat.pow_le_pow_right (by decide) hlength)

theorem IsRun.isNumber (h : IsRun cs) : IsNumber cs where
  ne_nil := h.ne_nil
  digits := h.digits
  fits := Nat.lt_trans (value_lt_thousand h.digits h.length_le) (by decide)

theorem IsShortModifier.isModifier (h : IsShortModifier m) : IsModifier m :=
  ⟨h.marker, h.run.isNumber⟩

theorem Short.readable (h : l.Short) : l.Readable where
  count := by
    by_cases hcount : l.count = []
    · exact .inl hcount
    · exact .inr (.inl (IsRun.isNumber ⟨hcount, h.count_digits, h.count_length⟩))
  sides := h.sides.isNumber
  modifiers := fun m hm => (h.modifiers m hm).isModifier

/-- A text that is a short literal is read without fail. -/
theorem Short.read (h : l.Short) {text : String} (htext : text = String.ofList l.chars) :
    DiceSpec.read text = .ok l.spec :=
  read_eq_ok_iff.2 ⟨l, h.readable, by rw [htext, String.toList_ofList], rfl⟩

/-- The modifiers of a short literal begin with no digit, and neither does what may stand behind
them. -/
theorem head_written_short (h : ∀ m ∈ ms, IsShortModifier m)
    (htail : tail.head?.any Token.isWordChar = false) :
    ∀ c ∈ (written ms ++ tail).head?, Decimal.isDigit c = false := by
  refine head_written (fun m hm => (h m hm).isModifier) fun c hc => ?_
  rw [hc] at htail
  exact (Token.no_word_goes_on htail).1

end DiceLiteral

/-! ## What the scanner finds -/

namespace Token

open DiceLiteral

/-- A run that ends in front of something else is found. -/
theorem digitRun_of_digits {digits tail : List Char} (h : ∀ c ∈ digits, Decimal.isDigit c = true)
    (hlength : digits.length ≤ 3) (htail : ∀ c ∈ tail.head?, Decimal.isDigit c = false) :
    digitRun (digits ++ tail) = digits.length := by
  have hhead : ∀ c ∈ (tail.take (3 - digits.length)).head?, Decimal.isDigit c = false := by
    intro c hc
    cases tail with
    | nil => simp at hc
    | cons d rest =>
      cases hroom : 3 - digits.length with
      | zero => simp [hroom] at hc
      | succ n =>
        rw [hroom, List.take_succ_cons] at hc
        exact htail c hc
  rw [digitRun, List.take_append, List.take_of_length_le hlength, (run_ends h hhead).1]

/-- What is found is a run, whatever stands behind it. -/
theorem digitRun_parts (cs : List Char) : ∃ digits tail, cs = digits ++ tail ∧
    (∀ c ∈ digits, Decimal.isDigit c = true) ∧ digits.length ≤ 3 ∧
      digitRun cs = digits.length := by
  have hprefix : (cs.take 3).takeWhile Decimal.isDigit <+: cs :=
    (List.takeWhile_prefix _).trans (List.take_prefix 3 cs)
  obtain ⟨tail, htail⟩ := hprefix
  refine ⟨_, tail, htail.symm, fun c hc => List.mem_takeWhile_imp hc, ?_, rfl⟩
  exact Nat.le_trans (List.takeWhile_sublist _).length_le (List.length_take_le 3 cs)

theorem modifierLength_of_short {m : Char × List Char} (h : IsShortModifier m)
    {tail : List Char} (htail : ∀ c ∈ tail.head?, Decimal.isDigit c = false) :
    modifierLength (m.1 :: (m.2 ++ tail)) = 1 + m.2.length := by
  have hpos : m.2.length ≠ 0 := fun hzero => h.run.ne_nil (List.eq_nil_of_length_eq_zero hzero)
  rw [modifierLength, digitRun_of_digits h.run.digits h.run.length_le htail]
  rcases h.marker with hm | hm | hm <;> simp [hm, hpos]

theorem modifierLength_of_ended {tail : List Char} (h : tail.head?.any isWordChar = false) :
    modifierLength tail = 0 := by
  cases tail with
  | nil => rfl
  | cons c rest =>
    obtain ⟨-, -, hr, hh, hl⟩ := no_word_goes_on h
    simp [modifierLength, hr, hh, hl]

theorem modifierLength_parts (cs : List Char) : modifierLength cs = 0 ∨
    ∃ m tail, IsShortModifier m ∧ cs = m.1 :: (m.2 ++ tail) ∧
      modifierLength cs = 1 + m.2.length := by
  cases cs with
  | nil => exact .inl rfl
  | cons c rest =>
    rw [modifierLength]
    split
    · rename_i hfound
      simp only [Bool.and_eq_true, Bool.or_eq_true, decide_eq_true_eq] at hfound
      obtain ⟨digits, tail, hrest, hdigits, hlength, hrun⟩ := digitRun_parts rest
      have hne : digits ≠ [] := by
        rintro rfl
        exact hfound.2 hrun
      refine .inr ⟨(c, digits), tail, ⟨?_, hne, hdigits, hlength⟩, by rw [hrest], by rw [hrun]⟩
      exact or_assoc.1 hfound.1
    · exact .inl rfl

/-- The length of the modifiers, of which there are at most two. -/
def modifiersLength (cs : List Char) : Nat :=
  modifierLength cs + modifierLength (cs.drop (modifierLength cs))

theorem modifiersLength_of_short {ms : List (Char × List Char)} (h : ∀ m ∈ ms, IsShortModifier m)
    (hlength : ms.length ≤ 2) {tail : List Char} (htail : tail.head?.any isWordChar = false) :
    modifiersLength (written ms ++ tail) = (written ms).length := by
  have hstep : ∀ (m : Char × List Char) (ms : List (Char × List Char)),
      (∀ m' ∈ m :: ms, IsShortModifier m') →
      modifierLength (written (m :: ms) ++ tail) = (m.1 :: m.2).length ∧
        (written (m :: ms) ++ tail).drop (m.1 :: m.2).length = written ms ++ tail := by
    intro m ms hall
    obtain ⟨hm, hms⟩ := List.forall_mem_cons.1 hall
    have hwritten : written (m :: ms) ++ tail = (m.1 :: m.2) ++ (written ms ++ tail) := by
      simp [written]
    rw [hwritten]
    refine ⟨?_, List.drop_left⟩
    rw [List.cons_append, modifierLength_of_short hm (head_written_short hms htail),
      List.length_cons, Nat.add_comm]
  unfold modifiersLength
  rcases ms with - | ⟨m, - | ⟨m', - | ⟨m'', ms⟩⟩⟩
  · have hnone := modifierLength_of_ended htail
    simp [written, hnone]
  · obtain ⟨hfirst, hdrop⟩ := hstep m [] h
    have hnone : modifierLength (written [] ++ tail) = 0 := modifierLength_of_ended htail
    rw [hfirst, hdrop, hnone]
    simp [written]
  · obtain ⟨hfirst, hdrop⟩ := hstep m [m'] h
    obtain ⟨hsecond, -⟩ := hstep m' [] fun n hn => h n (List.mem_cons_of_mem m hn)
    rw [hfirst, hdrop, hsecond]
    simp only [written, List.flatMap_cons, List.flatMap_nil, List.append_nil, List.length_append]
  · simp at hlength

theorem modifiersLength_parts (cs : List Char) : ∃ ms tail, (∀ m ∈ ms, IsShortModifier m) ∧
    ms.length ≤ 2 ∧ cs = written ms ++ tail ∧ modifiersLength cs = (written ms).length := by
  unfold modifiersLength
  rcases modifierLength_parts cs with hnone | ⟨m, back, hm, hcs, hfirst⟩
  · refine ⟨[], cs, nofun, by decide, rfl, ?_⟩
    rw [hnone, List.drop_zero, hnone]
    rfl
  have hdrop : cs.drop (modifierLength cs) = back := by
    rw [hfirst, hcs, Nat.add_comm, List.drop_succ_cons, List.drop_left]
  rw [hdrop, hfirst]
  rcases modifierLength_parts back with hnone | ⟨m', tail, hm', hback, hsecond⟩
  · refine ⟨[m], back, by simpa using hm, by simp, ?_, ?_⟩
    · simpa [written] using hcs
    · rw [hnone]
      simp [written, Nat.add_comm]
  · refine ⟨[m, m'], tail, by simpa using ⟨hm, hm'⟩, by simp, ?_, ?_⟩
    · simpa [written, hback] using hcs
    · rw [hsecond]
      simp only [written, List.flatMap_cons, List.flatMap_nil, List.append_nil,
        List.length_append, List.length_cons]
      omega

/-- What is found behind the letter, once the digits around it are known. -/
theorem diceLength?_around {count sides back : List Char}
    (hcount : digitRun (count ++ 'd' :: (sides ++ back)) = count.length)
    (hsides : digitRun (sides ++ back) = sides.length) (hne : sides ≠ []) :
    diceLength? (count ++ 'd' :: (sides ++ back)) =
      if (back.drop (modifiersLength back)).head?.any isWordChar then none
      else some (count.length + 1 + sides.length + modifiersLength back) := by
  have hpos : sides.length ≠ 0 := fun hzero => hne (List.eq_nil_of_length_eq_zero hzero)
  unfold diceLength?
  simp only [hcount, List.drop_left, hsides, if_neg hpos, List.drop_length_add_append]
  have hdrop : ∀ n, (count ++ 'd' :: (sides ++ back)).drop (count.length + 1 + sides.length + n) =
      back.drop n := by
    intro n
    rw [Nat.add_assoc, Nat.add_assoc, List.drop_length_add_append, Nat.add_comm 1,
      List.drop_succ_cons, List.drop_length_add_append]
  rw [Nat.add_assoc, hdrop]
  rfl

theorem length_chars (l : DiceLiteral) :
    l.chars.length = l.count.length + 1 + l.sides.length + (written l.modifiers).length := by
  simp only [chars, List.length_append, List.length_cons]
  omega

/-- The scanner finds a literal of some length exactly if a short one of that length stands there
and no word goes on behind it. -/
theorem diceLength?_eq_some_iff {cs : List Char} {n : Nat} :
    diceLength? cs = some n ↔ ∃ (l : DiceLiteral) (tail : List Char), l.Short ∧
      cs = l.chars ++ tail ∧ n = l.chars.length ∧ tail.head?.any isWordChar = false := by
  constructor
  · intro h
    obtain ⟨count, back, hcs, hcountDigits, hcountLength, hcount⟩ := digitRun_parts cs
    obtain ⟨rest, rfl, hpos⟩ : ∃ rest, back = 'd' :: rest ∧ digitRun rest ≠ 0 := by
      unfold diceLength? at h
      dsimp only at h
      rw [hcount, hcs, List.drop_left] at h
      split at h
      · split at h
        · cases h
        · rename_i rest hpos
          exact ⟨rest, rfl, hpos⟩
      · cases h
    obtain ⟨sides, back, rfl, hdigits, hlength, hsides⟩ := digitRun_parts rest
    have hne : sides ≠ [] := by
      rintro rfl
      exact hpos hsides
    obtain ⟨ms, tail, hms, hmsLength, rfl, hmodifiers⟩ := modifiersLength_parts back
    subst hcs
    rw [diceLength?_around hcount hsides hne, hmodifiers, List.drop_left] at h
    split at h
    · cases h
    · rename_i hended
      cases h
      refine ⟨⟨count, sides, ms⟩, tail, ?_, (chars_append ⟨count, sides, ms⟩ tail).symm,
        (length_chars ⟨count, sides, ms⟩).symm, by simpa using hended⟩
      exact ⟨hcountDigits, hcountLength, ⟨hne, hdigits, hlength⟩, hms, hmsLength⟩
  · rintro ⟨l, tail, hl, rfl, rfl, htail⟩
    have hcount : digitRun (l.count ++ 'd' :: (l.sides ++ (written l.modifiers ++ tail))) =
        l.count.length :=
      digitRun_of_digits hl.count_digits hl.count_length (by rintro c ⟨⟩; decide)
    have hsides : digitRun (l.sides ++ (written l.modifiers ++ tail)) = l.sides.length :=
      digitRun_of_digits hl.sides.digits hl.sides.length_le (head_written_short hl.modifiers htail)
    have hmodifiers := modifiersLength_of_short hl.modifiers hl.modifiers_length htail
    rw [chars_append, diceLength?_around hcount hsides hl.sides.ne_nil, hmodifiers, List.drop_left,
      htail, length_chars]
    rfl

end Token

/-! ## The bytes of what is found -/

namespace Text

/-- Bytes of the first 128 characters that stand at the beginning are those characters. -/
theorem prefix_of_bytes_prefix {xs cs : List Char} (hxs : ∀ c ∈ xs, c.toNat ≤ 127)
    (h : bytes xs <+: bytes cs) : xs <+: cs := by
  induction xs generalizing cs with
  | nil => exact List.nil_prefix
  | cons x xs ih =>
    obtain ⟨hx, hlow⟩ := List.forall_mem_cons.1 hxs
    obtain ⟨b, bs, hb, ⟨-, rfl, hbx⟩ | ⟨hhigh, -⟩⟩ := encoded_first x
    swap
    · omega
    cases cs with
    | nil => simp [bytes, hb] at h
    | cons c cs =>
      obtain ⟨b', bs', hb', hc⟩ := encoded_first c
      simp only [bytes, List.flatMap_cons, hb, hb', List.cons_append, List.nil_append,
        List.cons_prefix_cons] at h
      obtain ⟨rfl, h⟩ := h
      rcases hc with ⟨-, rfl, hbc⟩ | ⟨-, hhigh⟩
      · obtain rfl : x = c := Char.toNat_inj.1 (hbx.symm.trans hbc)
        exact List.cons_prefix_cons.2 ⟨rfl, ih hlow h⟩
      · omega

/-- Every character takes at least one byte, and the first 128 take no more. -/
theorem length_bytes_low {xs : List Char} (hxs : ∀ c ∈ xs, c.toNat ≤ 127) :
    (bytes xs).length = xs.length := by
  induction xs with
  | nil => rfl
  | cons x xs ih =>
    obtain ⟨hx, hlow⟩ := List.forall_mem_cons.1 hxs
    obtain ⟨b, bs, hb, ⟨-, rfl, -⟩ | ⟨hhigh, -⟩⟩ := encoded_first x
    · simp only [bytes, List.flatMap_cons, hb, List.length_append, List.length_cons,
        List.length_nil]
      rw [← ih hlow, bytes, Nat.add_comm]
    · omega

end Text

/-- The first byte of a text goes on with a word exactly if its first character does. -/
theorem Token.head?_any_isByteOf (cs : List Char) :
    (Text.bytes cs).head?.any (isByteOf isWordChar) = cs.head?.any isWordChar := by
  have hfirst : (Text.byteAt? cs 0).any (isByteOf isWordChar) = (cs.drop 0).head?.any isWordChar :=
    Text.any_isByteOf_byteAt? (fun c hc => toNat_le_of_isWordChar hc) (by simp)
  rwa [Text.byteAt?_eq, ← List.head?_eq_getElem?] at hfirst

namespace DiceLiteral

/-- Dice at the beginning of bytes: the first `n` bytes are a short literal, and the byte behind
them is none that an identifier goes on with. -/
structure Opens (l : DiceLiteral) (bytes : List UInt8) (n : Nat) : Prop where
  short : l.Short
  reaches : n ≤ bytes.length
  written : bytes.take n = Text.bytes l.chars
  ends : ∀ b ∈ bytes[n]?, Token.isByteOf Token.isWordChar b = false

theorem Short.low {l : DiceLiteral} (h : l.Short) : ∀ c ∈ l.chars, c.toNat ≤ 127 := by
  have hdigit : ∀ c : Char, Decimal.isDigit c = true → c.toNat ≤ 127 := fun c hc =>
    Token.toNat_le_of_isDigit hc
  intro c hc
  simp only [chars, List.mem_append, List.mem_cons, DiceLiteral.written, List.mem_flatMap] at hc
  rcases hc with hc | rfl | hc | ⟨m, hm, rfl | hc⟩
  · exact hdigit c (h.count_digits c hc)
  · decide
  · exact hdigit c (h.sides.digits c hc)
  · rcases (h.modifiers m hm).marker with hm | hm | hm <;> rw [hm] <;> decide
  · exact hdigit c ((h.modifiers m hm).run.digits c hc)

/-- The scanner finds `n` exactly if dice of `n` bytes begin there. -/
theorem diceLength?_eq_some_iff_opens {cs : List Char} {n : Nat} :
    Token.diceLength? cs = some n ↔ ∃ l : DiceLiteral, l.Opens (Text.bytes cs) n := by
  have hnext : ∀ xs tail : List Char, (Text.bytes (xs ++ tail))[(Text.bytes xs).length]? =
      (Text.bytes tail).head? := fun xs tail => by
    rw [Text.bytes_append, List.getElem?_append_right (Nat.le_refl _), Nat.sub_self,
      List.head?_eq_getElem?]
  rw [Token.diceLength?_eq_some_iff]
  constructor
  · rintro ⟨l, tail, hl, rfl, rfl, htail⟩
    rw [← Text.length_bytes_low hl.low]
    refine ⟨l, hl, ?_, ?_, fun b hb => ?_⟩
    · rw [Text.bytes_append, List.length_append]
      exact Nat.le_add_right _ _
    · rw [Text.bytes_append, List.take_left]
    · rw [hnext] at hb
      rw [← Token.head?_any_isByteOf, hb] at htail
      exact htail
  · rintro ⟨l, hl, hreaches, hwritten, hends⟩
    have hlength : n = (Text.bytes l.chars).length := by
      rw [← hwritten, List.length_take, Nat.min_eq_left hreaches]
    have hprefix : Text.bytes l.chars <+: Text.bytes cs := by
      rw [← hwritten]
      exact List.take_prefix n _
    obtain ⟨tail, rfl⟩ := Text.prefix_of_bytes_prefix hl.low hprefix
    refine ⟨l, tail, hl, rfl, by rw [hlength, Text.length_bytes_low hl.low], ?_⟩
    rw [hlength, hnext] at hends
    rw [← Token.head?_any_isByteOf]
    cases hhead : (Text.bytes tail).head? with
    | none => rfl
    | some b => exact hends b hhead

end DiceLiteral

/-! ## Dice among tokens -/

namespace Token

/-- Every token of dice is a short literal. -/
theorem Scanned.dice {p last : Position} {cs : List Char} {tokens : List Token}
    (h : Scanned p cs tokens last) : ∀ t ∈ tokens, t.kind = .dice →
      ∃ l : DiceLiteral, l.Short ∧ t.text = String.ofList l.chars := by
  have hlexeme : ∀ c cs, (lexeme c cs).kind = .dice →
      ∃ l : DiceLiteral, l.Short ∧ (lexeme c cs).text = String.ofList l.chars := by
    intro c cs hkind
    have hbegins := lexeme_begins c cs
    generalize lexeme c cs = lex at hkind hbegins
    cases hbegins with
    | literal hliteral => simp [hkind] at hliteral
    | @dice n hdice =>
      obtain ⟨l, tail, hl, hcs, rfl, -⟩ := diceLength?_eq_some_iff.1 hdice
      refine ⟨l, hl, ?_⟩
      rw [hcs]
      exact congrArg String.ofList List.take_left
    | word =>
      have hword := wordKind_is_word ((c :: cs).takeWhile isWordChar)
      rw [show wordKind ((c :: cs).takeWhile isWordChar) = .dice from hkind] at hword
      simp at hword
    | integer => cases hkind
    | mark hmark =>
      have hall : ∀ mark ∈ marks, mark.2 ≠ .dice := by decide
      exact absurd hkind (hall _ hmark)
    | unknown => cases hkind
  induction h with
  | nil p => exact nofun
  | separator _ _ ih => exact ih
  | @token p last c cs tokens _ _ ih => exact List.forall_mem_cons.2 ⟨hlexeme c cs, ih⟩

end Token

end DiceScript
