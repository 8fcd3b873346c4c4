import DiceScript.Proofs.Grammar.Mistakes.Rules

/-!
Dice in scripts. Whatever the scanner takes for dice can be read as dice, so no script is told that
its dice are invalid, as long as places can be told apart. Where they have started over, what is cut
out is still no longer than a literal, so that all dice in a tree have numbers of few digits.
-/

namespace DiceScript

namespace DiceLiteral

theorem Short.length_le {l : DiceLiteral} (h : l.Short) : l.chars.length ≤ 15 := by
  have hwritten : (written l.modifiers).length ≤ l.modifiers.length * 4 := by
    rw [written, List.length_flatMap]
    refine Nat.le_trans (List.sum_le_card_nsmul _ 4 fun n hn => ?_) (by simp)
    obtain ⟨m, hm, rfl⟩ := List.mem_map.1 hn
    exact Nat.succ_le_succ (h.modifiers m hm).run.length_le
  have hmodifiers := h.modifiers_length
  have hcount := h.count_length
  have hsides := h.sides.length_le
  rw [Token.length_chars]
  omega

/-- A number is less than its digits allow. -/
theorem toNat_number_lt (cs : List Char) : (number cs).toNat < 10 ^ cs.length := by
  have hdigits : ∀ c ∈ cs.filter Decimal.isDigit, Decimal.isDigit c = true := fun c hc =>
    (List.mem_filter.1 hc).2
  have hlength : 10 ^ (cs.filter Decimal.isDigit).length ≤ 10 ^ cs.length :=
    Nat.pow_le_pow_right (by decide) (List.length_filter_le _ _)
  have hvalue := Decimal.value_lt hdigits
  rw [number, UInt32.toNat_ofNat']
  exact Nat.lt_of_le_of_lt (Nat.mod_le _ _) (Nat.lt_of_lt_of_le hvalue hlength)

theorem toNat_count_le (l : DiceLiteral) : l.spec.count.toNat ≤ 10 ^ l.count.length := by
  show (if l.count = [] then 1 else number l.count).toNat ≤ _
  split
  · exact Nat.one_le_pow _ _ (by decide)
  · exact (toNat_number_lt l.count).le

/-- There are fewer faces on all dice together than the characters of a literal allow. -/
theorem faces_le (l : DiceLiteral) :
    l.spec.count.toNat * l.spec.sides.toNat ≤ 10 ^ l.chars.length := by
  have hlength : l.count.length + l.sides.length ≤ l.chars.length := by
    rw [Token.length_chars]
    omega
  calc l.spec.count.toNat * l.spec.sides.toNat
      ≤ 10 ^ l.count.length * 10 ^ l.sides.length :=
        Nat.mul_le_mul l.toNat_count_le (toNat_number_lt l.sides).le
    _ = 10 ^ (l.count.length + l.sides.length) := (Nat.pow_add _ _ _).symm
    _ ≤ 10 ^ l.chars.length := Nat.pow_le_pow_right (by decide) hlength

end DiceLiteral

namespace Token

/-- Tokens of dice are no longer than a short literal, wherever they are cut out. -/
theorem dice_size_le {text : String} {tokens : List Token} {last : Source}
    (h : scan text = some (tokens, last)) :
    ∀ t ∈ tokens, t.kind = .dice → Text.size t.text.toList ≤ 15 := by
  refine forall_mem_scan (fun c s t last hnext hkind => ?_) h
  obtain ⟨n, hn, hcut⟩ := next?_dice hnext hkind
  rw [diceAhead?_eq, diceLength?_eq_some_iff] at hn
  obtain ⟨l, tail, hl, hrest, rfl, -⟩ := hn
  obtain ⟨cs, rfl, -, hle, hsize⟩ := cut?_eq_some hcut
  rw [Source.skip_eq, hrest, List.take_left, Position.advance_offset] at hle hsize
  have hlow : Text.size l.chars = l.chars.length := by
    rw [← Text.length_bytes, Text.length_bytes_low hl.low]
  have hshort := hl.length_le
  have hfits : Text.size l.chars < UInt32.size := hlow ▸ Nat.lt_of_le_of_lt hshort (by decide)
  rw [UInt32.toNat_add, UInt32.toNat_ofNat_of_lt' hfits, hlow] at hsize
  rw [String.toList_ofList]
  omega

end Token

namespace Grammar

/-- All dice in the tree of a script come of literals that are no longer than short ones. -/
theorem dice_nodes {text : String} {script : Script} (hparse : Script.parse text = some script)
    {spec : DiceSpec} (h : .dice spec ∈ script.root.nodes) :
    ∃ l : DiceLiteral, l.chars.length ≤ 15 ∧ spec = l.spec := by
  obtain ⟨tokens, last, hscan, hread, -⟩ := Script.parse_eq_some_iff.1 hparse
  obtain ⟨t, ht, hkind, hok⟩ := (Script.accounted hread).1.dice spec h
  obtain ⟨l, -, hchars, rfl⟩ := DiceLiteral.read_eq_ok_iff.1 hok
  refine ⟨l, ?_, rfl⟩
  rw [← hchars]
  exact Nat.le_trans (Text.length_le_size _) (Token.dice_size_le hscan t ht hkind)

/-- The scanner finds dice exactly where a short literal begins that no identifier goes on behind,
and no two of different lengths do. In a text of fewer than 2 ^ 32 bytes, every token of dice is
such a literal and is read as what it asks for, so that no script is told that its dice are
invalid. -/
theorem dice_are_recognised_exactly :
    (∀ (s : Source) (n : Nat),
      Token.diceAhead? s = some n ↔ ∃ l : DiceLiteral, l.Opens (Text.bytes s.rest) n) ∧
    (∀ (s : Source) (l l' : DiceLiteral) (n n' : Nat),
      l.Opens (Text.bytes s.rest) n → l'.Opens (Text.bytes s.rest) n' → n = n') ∧
    ∀ text : String, text.utf8ByteSize < 2 ^ 32 → ∃ tokens script,
      Token.tokenize text = some tokens ∧ Script.parse text = some script ∧
      (∀ t ∈ tokens, t.kind = .dice →
        ∃ l : DiceLiteral, l.Short ∧ t.text = String.ofList l.chars ∧
          DiceSpec.read t.text = .ok l.spec) ∧
      ∀ message ∈ script.mistakes, ¬ Mistake.invalidDice.text.toList <+: message.toList := by
  have hfound : ∀ (s : Source) (n : Nat),
      Token.diceAhead? s = some n ↔ ∃ l : DiceLiteral, l.Opens (Text.bytes s.rest) n := by
    intro s n
    rw [Token.diceAhead?_eq, DiceLiteral.diceLength?_eq_some_iff_opens]
  refine ⟨hfound, fun s l l' n n' h h' => ?_, fun text hsmall => ?_⟩
  · have hn := (hfound s n).2 ⟨l, h⟩
    have hn' := (hfound s n').2 ⟨l', h'⟩
    exact Option.some.inj (hn.symm.trans hn')
  refine ⟨_, _, Token.tokenize_of_small hsmall, Script.parse_of_small hsmall,
    fun t ht hkind => ?_, no_dice_are_blamed text rfl⟩
  rw [lexed_eq, List.mem_append] at ht
  rcases ht with ht | ht
  · obtain ⟨l, hl, htext⟩ := (Token.lex_scanned text.toList).dice t ht hkind
    exact ⟨l, hl, htext, hl.read htext⟩
  · rw [List.mem_singleton.1 ht] at hkind
    cases hkind

/-- Behind as many blanks as there are offsets, places have started over and dice are cut out of the
blanks in front. -/
theorem scan_dice_behind_blanks {k : Nat} (hk : UInt32.ofNat (k + 3) = 0) :
    ∃ last, Token.scan (String.ofList (List.replicate (k + 3) ' ' ++ ['1', 'd', '6'])) =
      some ([⟨.dice, "   ", ⟨.start, ⟨1, 3⟩⟩⟩], last) := by
  generalize htext : List.replicate (k + 3) ' ' ++ ['1', 'd', '6'] = cs
  have hsize : 3 ≤ Text.size cs := by
    refine Nat.le_trans ?_ (Text.length_le_size cs)
    rw [← htext, List.length_append, List.length_replicate]
    exact Nat.le_add_left 3 _
  have hsection : (⟨cs, [], ⟨1, 3⟩⟩ : Source).section? .start ⟨1, 3⟩ = some [' ', ' ', ' '] := by
    rw [Source.section?, if_pos ⟨by decide, hsize⟩, ← htext]
    have hslice := Text.slice_append [] [' ', ' ', ' '] (List.replicate k ' ' ++ ['1', 'd', '6'])
    exact congrArg some hslice
  have hdice : Token.diceAhead? ⟨cs, ['1', 'd', '6'], .start⟩ = some 3 := by
    rw [Token.diceAhead?_eq]
    show Token.diceLength? ['1', 'd', '6'] = some 3
    decide
  have hnext : Token.next? '1' ⟨cs, ['1', 'd', '6'], .start⟩ =
      some (⟨.dice, "   ", ⟨.start, ⟨1, 3⟩⟩⟩, ⟨cs, [], ⟨1, 3⟩⟩) := by
    unfold Token.next?
    rw [if_neg (by decide), if_neg (by decide), hdice]
    show Token.cut? _ _ ⟨cs, [], ⟨1, 3⟩⟩ = _
    rw [Token.cut?, hsection]
    rfl
  have hblank : ∀ c ∈ List.replicate (k + 3) ' ', Token.isSeparator c = true := fun c hc =>
    (List.eq_of_mem_replicate hc).symm ▸ rfl
  have hrest : (Source.ofString (String.ofList cs)).rest =
      List.replicate (k + 3) ' ' ++ ['1', 'd', '6'] := by
    rw [Source.ofString, String.toList_ofList, htext]
  have hblanks := Token.scanFrom_separators hblank 3 hrest
  have hlength : (String.ofList cs).toList.length = (List.replicate (k + 3) ' ').length + 3 := by
    rw [String.toList_ofList, ← htext, List.length_append]
    rfl
  refine ⟨⟨cs, [], ⟨1, 3⟩⟩, ?_⟩
  rw [Token.scan, hlength, hblanks, Source.ofString, String.toList_ofList,
    Token.advance_blanks _ hk, Token.scanFrom]
  dsimp only
  rw [if_neg (by decide), hnext]
  rfl

theorem parse_dice_behind_blanks {k : Nat} (hk : UInt32.ofNat (k + 3) = 0) :
    let text := String.ofList (List.replicate (k + 3) ' ' ++ ['1', 'd', '6'])
    ∃ tokens script, Token.tokenize text = some tokens ∧ Script.parse text = some script ∧
      (∃ t ∈ tokens, t.kind = .dice ∧ DiceSpec.read t.text = .error .malformed) ∧
      ∃ message ∈ script.mistakes, Mistake.invalidDice.text.toList <+: message.toList := by
  intro text
  obtain ⟨last, hscan⟩ := scan_dice_behind_blanks hk
  have hparse : Script.parse text =
      some ⟨.error "invalid dice: `   `", ["invalid dice: `   `"]⟩ :=
    Script.parse_eq_some_iff.2 ⟨_, _, hscan, rfl, rfl⟩
  refine ⟨_, _, by rw [Token.tokenize, hscan]; rfl, hparse, ?_, _, List.mem_singleton_self _, ?_⟩
  · exact ⟨_, List.mem_cons_self, rfl, by decide⟩
  · decide

/-- Behind 2 ^ 32 blanks a token of dice cannot be read as dice, and the script is told so. -/
theorem dice_behind_a_wide_margin_are_lost :
    let text := String.ofList (List.replicate 4294967296 ' ' ++ ['1', 'd', '6'])
    ∃ tokens script, Token.tokenize text = some tokens ∧ Script.parse text = some script ∧
      (∃ t ∈ tokens, t.kind = .dice ∧ DiceSpec.read t.text = .error .malformed) ∧
      ∃ message ∈ script.mistakes, Mistake.invalidDice.text.toList <+: message.toList :=
  parse_dice_behind_blanks (k := 4294967293) (by decide)

/-- Four dice of which the best three count are recognised. -/
theorem an_ability_roll_is_recognised :
    (∃ l : DiceLiteral, l.Opens (Text.bytes "4d6r1h3 * 6".toList) 7) ∧
    ∃ l : DiceLiteral, l.Short ∧ "4d6r1h3" = String.ofList l.chars ∧
      DiceSpec.read "4d6r1h3" = .ok l.spec := by
  obtain ⟨hfound, -, hread⟩ := dice_are_recognised_exactly
  have hlength : Token.diceAhead? (.ofString "4d6r1h3 * 6") = some 7 := by decide
  obtain ⟨tokens, script, htokens, -, hdice, -⟩ := hread "4d6r1h3 * 6" (by decide)
  have hlexed : Token.tokenize "4d6r1h3 * 6" = some (Token.lexed "4d6r1h3 * 6") :=
    Token.tokenize_of_small (by decide)
  obtain rfl : tokens = Token.lexed "4d6r1h3 * 6" := Option.some.inj (htokens.symm.trans hlexed)
  refine ⟨(hfound _ _).1 hlength, hdice ⟨.dice, "4d6r1h3", ⟨⟨1, 0⟩, ⟨1, 7⟩⟩⟩ ?_ rfl⟩
  decide

end Grammar

end DiceScript
