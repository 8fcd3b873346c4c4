import DiceScript.Proofs.Token.Words

/-!
Dice literals as texts. Whatever a literal asks for is read back from its text, and a text is read
only if it has the form of a literal. There is one thing that reading does not get over: a character
of several bytes directly behind a literal.
-/

namespace DiceScript

/-! ## Literals as they are written -/

/-- A dice literal as it is written: the count in front of the letter `d`, the sides behind it, and
modifiers, each a letter and a number. -/
structure DiceLiteral where
  count : List Char
  sides : List Char
  modifiers : List (Char × List Char)
  deriving DecidableEq, Repr

namespace DiceLiteral

/-- The characters of modifiers. -/
def written (modifiers : List (Char × List Char)) : List Char :=
  modifiers.flatMap fun m => m.1 :: m.2

/-- The characters of the literal. -/
def chars (l : DiceLiteral) : List Char := l.count ++ 'd' :: (l.sides ++ written l.modifiers)

/-- The number that the digits among characters write. -/
def number (cs : List Char) : UInt32 := UInt32.ofNat (Decimal.value (cs.filter Decimal.isDigit))

/-- The number of the last modifier with a letter, if there is one. -/
def last? (modifiers : List (Char × List Char)) (marker : Char) : Option UInt32 :=
  ((modifiers.filter fun m => m.1 = marker).getLast?).map fun m => number m.2

/-- What the literal asks for. Without a count it asks for one die, and of modifiers with the same
letter the last one counts. -/
def spec (l : DiceLiteral) : DiceSpec where
  count := if l.count = [] then 1 else number l.count
  sides := number l.sides
  reroll := last? l.modifiers 'r'
  keepHighest := last? l.modifiers 'h'
  keepLowest := last? l.modifiers 'l'

/-- A run of digits whose number fits in 32 bits. -/
structure IsNumber (cs : List Char) : Prop where
  ne_nil : cs ≠ []
  digits : ∀ c ∈ cs, Decimal.isDigit c = true
  fits : Decimal.value cs < UInt32.size

/-- A count is a number, with or without a plus sign, or missing. -/
def IsCount (cs : List Char) : Prop :=
  cs = [] ∨ IsNumber cs ∨ ∃ digits, cs = '+' :: digits ∧ IsNumber digits

/-- A letter that has a meaning, and a number. -/
structure IsModifier (m : Char × List Char) : Prop where
  marker : m.1 = 'r' ∨ m.1 = 'h' ∨ m.1 = 'l'
  number : IsNumber m.2

/-- All parts of the literal are what they should be. There may be any number of modifiers. -/
structure Readable (l : DiceLiteral) : Prop where
  count : IsCount l.count
  sides : IsNumber l.sides
  modifiers : ∀ m ∈ l.modifiers, IsModifier m

/-! ## Numbers -/

theorem ok_bind {α β : Type} (a : α) (f : α → Except DiceSpec.Failure β) :
    (Except.ok a >>= f) = f a := rfl

theorem number_of_digits {cs : List Char} (h : ∀ c ∈ cs, Decimal.isDigit c = true) :
    number cs = UInt32.ofNat (Decimal.value cs) := by
  rw [number, List.filter_eq_self.2 h]

theorem number?_eq_some_iff {cs : List Char} {n : UInt32} :
    DiceSpec.number? cs = some n ↔ IsNumber cs ∧ n = number cs := by
  unfold DiceSpec.number? Decimal.read?
  constructor
  · intro h
    split at h
    case isTrue hcs =>
      simp only [ne_eq, Bool.and_eq_true, decide_eq_true_eq, List.all_eq_true] at hcs
      rw [Option.bind_some] at h
      split at h
      case isTrue hfits =>
        cases h
        exact ⟨⟨hcs.1, hcs.2, hfits⟩, (number_of_digits hcs.2).symm⟩
      case isFalse => cases h
    case isFalse => cases h
  · rintro ⟨h, rfl⟩
    have hall : cs.all Decimal.isDigit = true := List.all_eq_true.2 h.digits
    simp [h.ne_nil, hall, h.fits, number_of_digits h.digits]

theorem count?_eq_some_iff {cs : List Char} {n : UInt32} :
    DiceSpec.count? cs = some n ↔ IsCount cs ∧ n = if cs = [] then 1 else number cs := by
  unfold DiceSpec.count? IsCount
  split
  · simp [eq_comm]
  · rename_i digits
    have hplus : ¬ IsNumber ('+' :: digits) := fun h => by
      have hdigit := h.digits '+' List.mem_cons_self
      cases hdigit
    have hnumber : number ('+' :: digits) = number digits := rfl
    simp [number?_eq_some_iff, hplus, hnumber]
  · rename_i hne hplus
    rw [number?_eq_some_iff, if_neg hne]
    constructor
    · rintro ⟨h, rfl⟩
      exact ⟨.inr (.inl h), rfl⟩
    · rintro ⟨rfl | h | ⟨digits, rfl, -⟩, rfl⟩
      · exact absurd rfl hne
      · exact ⟨h, rfl⟩
      · exact absurd rfl (hplus digits)

/-- No count holds the letter that ends it. -/
theorem ne_of_mem_count {cs : List Char} (h : IsCount cs) : ∀ c ∈ cs, c ≠ 'd' := by
  have hnumber : ∀ digits, IsNumber digits → ∀ c ∈ digits, c ≠ 'd' := fun _ hdigits c hc =>
    (Token.digit_begins_no_word (hdigits.digits c hc)).2.2.2.2
  rcases h with rfl | h | ⟨digits, rfl, h⟩
  · exact nofun
  · exact hnumber cs h
  · exact List.forall_mem_cons.2 ⟨by decide, hnumber digits h⟩

/-- A run ends in front of what begins with no character of its kind. -/
theorem run_ends {test : Char → Bool} {run tail : List Char} (h : ∀ c ∈ run, test c = true)
    (htail : ∀ c ∈ tail.head?, test c = false) :
    (run ++ tail).takeWhile test = run ∧ (run ++ tail).dropWhile test = tail := by
  rw [List.takeWhile_append_of_pos h, List.dropWhile_append_of_pos h]
  cases tail with
  | nil => simp
  | cons c rest => simp [htail c rfl]

/-! ## Modifiers -/

/-- A spec with what a modifier sets. -/
def set (spec : DiceSpec) (m : Char × List Char) : DiceSpec :=
  (spec.modify? m.1 (number m.2)).getD spec

theorem modify?_of_isModifier {m : Char × List Char} (h : IsModifier m) (spec : DiceSpec) :
    spec.modify? m.1 (number m.2) = some (set spec m) := by
  unfold set
  rcases h.marker with hm | hm | hm <;> rw [hm] <;> rfl

theorem isModifier_of_modify? {spec modified : DiceSpec} {marker : Char} {digits : List Char}
    {n : UInt32} (hdigits : IsNumber digits) (h : spec.modify? marker n = some modified) :
    IsModifier (marker, digits) := by
  refine ⟨?_, hdigits⟩
  unfold DiceSpec.modify? at h
  split at h
  · exact .inl rfl
  · exact .inr (.inl rfl)
  · exact .inr (.inr rfl)
  · cases h

/-- The letters of modifiers are no digits, and one byte long. -/
theorem marker_of_isModifier {m : Char × List Char} (h : IsModifier m) :
    Decimal.isDigit m.1 = false ∧ m.1.utf8Size = 1 := by
  rcases h.marker with hm | hm | hm <;> rw [hm] <;> decide

/-- A character of several bytes is no digit. -/
theorem not_digit_of_wide {c : Char} (h : c.utf8Size ≠ 1) : Decimal.isDigit c = false := by
  rw [Bool.eq_false_iff]
  intro hdigit
  unfold Decimal.isDigit at hdigit
  simp only [Bool.and_eq_true, decide_eq_true_eq] at hdigit
  have hle : c.val ≤ '9'.val := hdigit.2
  have hnine : '9'.val ≤ 127 := by decide
  exact h (Char.utf8Size_eq_one_iff.2 (UInt32.le_trans hle hnine))

theorem head_written {ms : List (Char × List Char)} (h : ∀ m ∈ ms, IsModifier m)
    {tail : List Char} (htail : ∀ c ∈ tail.head?, Decimal.isDigit c = false) :
    ∀ c ∈ (written ms ++ tail).head?, Decimal.isDigit c = false := by
  cases ms with
  | nil => exact htail
  | cons m ms =>
    rintro c ⟨⟩
    exact (marker_of_isModifier (h m List.mem_cons_self)).1

theorem modifiers_cons (n : Nat) (spec : DiceSpec) {marker : Char} (h : marker.utf8Size = 1)
    (rest : List Char) :
    DiceSpec.modifiers (n + 1) spec (marker :: rest) =
      (DiceSpec.required (DiceSpec.number? (rest.takeWhile Decimal.isDigit)) >>= fun amount =>
        DiceSpec.required (spec.modify? marker amount) >>= fun modified =>
          DiceSpec.modifiers n modified (rest.dropWhile Decimal.isDigit)) := by
  rw [DiceSpec.modifiers, if_neg (not_not_intro h)]

/-- What one turn of reading modifiers comes to. -/
theorem modifiers_cases (n : Nat) (spec : DiceSpec) (marker : Char) (rest : List Char) :
    (marker.utf8Size ≠ 1 ∧ DiceSpec.modifiers (n + 1) spec (marker :: rest) = .error .breakdown) ∨
    (IsModifier (marker, rest.takeWhile Decimal.isDigit) ∧
      DiceSpec.modifiers (n + 1) spec (marker :: rest) =
        DiceSpec.modifiers n (set spec (marker, rest.takeWhile Decimal.isDigit))
          (rest.dropWhile Decimal.isDigit)) ∨
    DiceSpec.modifiers (n + 1) spec (marker :: rest) = .error .malformed := by
  by_cases hwide : marker.utf8Size = 1
  case neg => exact .inl ⟨hwide, by rw [DiceSpec.modifiers, if_pos hwide]⟩
  right
  rw [modifiers_cons n spec hwide]
  cases hnumber : DiceSpec.number? (rest.takeWhile Decimal.isDigit) with
  | none => exact .inr rfl
  | some amount =>
    obtain ⟨hdigits, rfl⟩ := number?_eq_some_iff.1 hnumber
    cases hmodified : spec.modify? marker (number (rest.takeWhile Decimal.isDigit)) with
    | none =>
      right
      rw [DiceSpec.required, ok_bind, hmodified]
      rfl
    | some modified =>
      have hmodifier := isModifier_of_modify? hdigits hmodified
      have hset := modify?_of_isModifier hmodifier spec
      rw [hmodified] at hset
      cases hset
      refine .inl ⟨hmodifier, ?_⟩
      rw [DiceSpec.required, ok_bind, hmodified, DiceSpec.required, ok_bind]

/-- Modifiers that stand in front of something else are read one after another. -/
theorem modifiers_written {ms : List (Char × List Char)} (h : ∀ m ∈ ms, IsModifier m)
    {tail : List Char} (htail : ∀ c ∈ tail.head?, Decimal.isDigit c = false) (n : Nat)
    (spec : DiceSpec) :
    DiceSpec.modifiers (ms.length + n) spec (written ms ++ tail) =
      DiceSpec.modifiers n (ms.foldl set spec) tail := by
  induction ms generalizing spec with
  | nil => simp [written]
  | cons m ms ih =>
    obtain ⟨hm, hms⟩ := List.forall_mem_cons.1 h
    have hwritten : written (m :: ms) ++ tail = m.1 :: (m.2 ++ (written ms ++ tail)) := by
      simp [written]
    have hlength : (m :: ms).length + n = ms.length + n + 1 := by
      simp only [List.length_cons]
      omega
    obtain ⟨htake, hdrop⟩ := run_ends hm.number.digits (head_written hms htail)
    have hsize := (marker_of_isModifier hm).2
    have hnumber := number?_eq_some_iff.2 ⟨hm.number, rfl⟩
    have hmodify := modify?_of_isModifier hm spec
    rw [hwritten, hlength, List.foldl_cons, ← ih hms, modifiers_cons _ _ hsize, htake, hdrop,
      hnumber, DiceSpec.required, ok_bind, hmodify, DiceSpec.required, ok_bind]

/-- What modifiers can be read from is modifiers, up to the end or up to a character of several
bytes. -/
theorem modifiers_reads {n : Nat} {spec : DiceSpec} {cs : List Char}
    (h : DiceSpec.modifiers n spec cs ≠ .error .malformed) :
    ∃ ms tail, (∀ m ∈ ms, IsModifier m) ∧ cs = written ms ++ tail ∧
      (tail = [] ∧ DiceSpec.modifiers n spec cs = .ok (ms.foldl set spec) ∨
        (∃ c rest, tail = c :: rest ∧ c.utf8Size ≠ 1) ∧
          DiceSpec.modifiers n spec cs = .error .breakdown) := by
  induction n generalizing spec cs with
  | zero =>
    cases cs with
    | nil => exact ⟨[], [], nofun, rfl, .inl ⟨rfl, rfl⟩⟩
    | cons c cs => exact absurd rfl h
  | succ n ih =>
    cases cs with
    | nil => exact ⟨[], [], nofun, rfl, .inl ⟨rfl, rfl⟩⟩
    | cons c cs =>
      rcases modifiers_cases n spec c cs with ⟨hwide, hbreak⟩ | ⟨hmodifier, hnext⟩ | hmalformed
      · exact ⟨[], c :: cs, nofun, rfl, .inr ⟨⟨c, cs, rfl, hwide⟩, hbreak⟩⟩
      · rw [hnext] at h ⊢
        obtain ⟨ms, tail, hms, hcs, hends⟩ := ih h
        refine ⟨(c, cs.takeWhile Decimal.isDigit) :: ms, tail,
          List.forall_mem_cons.2 ⟨hmodifier, hms⟩, ?_, hends⟩
        have hsplit : cs = cs.takeWhile Decimal.isDigit ++ (written ms ++ tail) := by
          rw [← hcs, List.takeWhile_append_dropWhile]
        simpa [written] using hsplit
      · exact absurd hmalformed h

/-- Of the modifiers with the same letter the last one counts. -/
theorem foldl_set {ms : List (Char × List Char)} (h : ∀ m ∈ ms, IsModifier m)
    (count sides : UInt32) :
    ms.foldl set ⟨count, sides, none, none, none⟩ =
      ⟨count, sides, last? ms 'r', last? ms 'h', last? ms 'l'⟩ := by
  induction ms using List.reverseRecOn with
  | nil => rfl
  | append_singleton ms m ih =>
    have hm := h m (List.mem_append_right _ List.mem_cons_self)
    rw [List.foldl_concat, ih fun m' hm' => h m' (List.mem_append_left _ hm')]
    rcases hm.marker with hmarker | hmarker | hmarker
    all_goals simp [set, DiceSpec.modify?, last?, hmarker, List.filter_append]

theorem length_le_written (ms : List (Char × List Char)) : ms.length ≤ (written ms).length := by
  induction ms with
  | nil => rfl
  | cons m ms ih =>
    have hwritten : written (m :: ms) = m.1 :: (m.2 ++ written ms) := rfl
    rw [hwritten]
    simp only [List.length_cons, List.length_append]
    omega

/-! ## Whole literals -/

theorem chars_append (l : DiceLiteral) (tail : List Char) :
    l.chars ++ tail = l.count ++ 'd' :: (l.sides ++ (written l.modifiers ++ tail)) := by
  simp [chars]

/-- What reading does from the letter on. -/
theorem read_eq {text : String} {rest : List Char}
    (h : text.toList.dropWhile (· != 'd') = 'd' :: rest) :
    DiceSpec.read text =
      (DiceSpec.required (DiceSpec.count? (text.toList.takeWhile (· != 'd'))) >>= fun count =>
        DiceSpec.required (DiceSpec.number? (rest.takeWhile Decimal.isDigit)) >>= fun sides =>
          DiceSpec.modifiers rest.length ⟨count, sides, none, none, none⟩
            (rest.dropWhile Decimal.isDigit)) := by
  rw [DiceSpec.read]
  simp only [h]

/-- A literal in front of something else is read up to there. -/
theorem read_of_readable {l : DiceLiteral} (h : l.Readable) {text : String} {tail : List Char}
    (htext : text.toList = l.chars ++ tail)
    (htail : ∀ c ∈ tail.head?, Decimal.isDigit c = false) :
    ∃ n, tail.length ≤ n ∧ DiceSpec.read text = DiceSpec.modifiers n l.spec tail := by
  have hne : ∀ c ∈ l.count, (c != 'd') = true := fun c hc =>
    bne_iff_ne.2 (ne_of_mem_count h.count c hc)
  have hletter : ∀ back, (l.count ++ 'd' :: back).takeWhile (· != 'd') = l.count ∧
      (l.count ++ 'd' :: back).dropWhile (· != 'd') = 'd' :: back :=
    fun back => run_ends hne (by rintro c ⟨⟩; rfl)
  obtain ⟨htake, hdrop⟩ := hletter (l.sides ++ (written l.modifiers ++ tail))
  have hcount := count?_eq_some_iff.2 ⟨h.count, rfl⟩
  have hsides := number?_eq_some_iff.2 ⟨h.sides, rfl⟩
  obtain ⟨htakeSides, hdropSides⟩ :=
    run_ends h.sides.digits (head_written h.modifiers htail)
  -- the bound leaves enough for what stands behind the modifiers
  obtain ⟨n, hn⟩ : ∃ n, (l.sides ++ (written l.modifiers ++ tail)).length =
      l.modifiers.length + n ∧ tail.length ≤ n := by
    have hle := length_le_written l.modifiers
    refine ⟨(l.sides ++ (written l.modifiers ++ tail)).length - l.modifiers.length, ?_, ?_⟩
    all_goals
      simp only [List.length_append]
      omega
  refine ⟨n, hn.2, ?_⟩
  rw [← chars_append, ← htext] at htake hdrop
  rw [read_eq hdrop, htake, hcount, DiceSpec.required, ok_bind, htakeSides, hdropSides, hsides,
    DiceSpec.required, ok_bind, hn.1, modifiers_written h.modifiers htail, foldl_set h.modifiers]
  rfl

/-- All that reading a text can come to. -/
theorem read_cases (text : String) :
    DiceSpec.read text = .error .malformed ∨
    ∃ (l : DiceLiteral) (tail : List Char), l.Readable ∧ text.toList = l.chars ++ tail ∧
      (tail = [] ∧ DiceSpec.read text = .ok l.spec ∨
        (∃ c rest, tail = c :: rest ∧ c.utf8Size ≠ 1) ∧
          DiceSpec.read text = .error .breakdown) := by
  cases hdrop : text.toList.dropWhile (· != 'd') with
  | nil =>
    left
    rw [DiceSpec.read]
    simp only [hdrop]
  | cons d rest =>
    have hd : d = 'd' := by
      have hhead := List.head?_dropWhile_not (· != 'd') text.toList
      rw [hdrop] at hhead
      simpa using hhead
    subst hd
    rw [read_eq hdrop]
    cases hcount : DiceSpec.count? (text.toList.takeWhile (· != 'd')) with
    | none => exact .inl rfl
    | some count =>
      cases hsides : DiceSpec.number? (rest.takeWhile Decimal.isDigit) with
      | none => exact .inl rfl
      | some sides =>
        rw [DiceSpec.required, ok_bind, DiceSpec.required, ok_bind]
        by_cases hread : DiceSpec.modifiers rest.length ⟨count, sides, none, none, none⟩
            (rest.dropWhile Decimal.isDigit) = .error .malformed
        · exact .inl hread
        right
        obtain ⟨hcountForm, rfl⟩ := count?_eq_some_iff.1 hcount
        obtain ⟨hsidesForm, rfl⟩ := number?_eq_some_iff.1 hsides
        obtain ⟨ms, tail, hms, hrest, hends⟩ := modifiers_reads hread
        refine ⟨⟨text.toList.takeWhile (· != 'd'), rest.takeWhile Decimal.isDigit, ms⟩, tail,
          ⟨hcountForm, hsidesForm, hms⟩, ?_, ?_⟩
        · have hsplit := List.takeWhile_append_dropWhile (p := (· != 'd')) (l := text.toList)
          have hsplitRest := List.takeWhile_append_dropWhile (p := Decimal.isDigit) (l := rest)
          rw [hdrop] at hsplit
          rw [hrest, ← List.append_assoc] at hsplitRest
          rw [chars, List.append_assoc, List.cons_append, hsplitRest, hsplit]
        · rw [foldl_set hms] at hends
          exact hends

/-! ## The text of what is asked for -/

/-- The literal that a spec is written as. -/
def ofSpec (spec : DiceSpec) : DiceLiteral where
  count := (Decimal.text spec.count.toNat).toList
  sides := (Decimal.text spec.sides.toNat).toList
  modifiers :=
    [('r', spec.reroll), ('h', spec.keepHighest), ('l', spec.keepLowest)].filterMap fun m =>
      m.2.map fun n => (m.1, (Decimal.text n.toNat).toList)

theorem isNumber_text (n : UInt32) : IsNumber (Decimal.text n.toNat).toList where
  ne_nil := by
    rw [Decimal.toList_text]
    exact Nat.toDigits_ne_nil
  digits := fun _ hc => Decimal.isDigit_of_mem_text hc
  fits := by
    rw [Decimal.value_text]
    exact n.toNat_lt

theorem number_text (n : UInt32) : number (Decimal.text n.toNat).toList = n := by
  rw [number_of_digits (isNumber_text n).digits, Decimal.value_text, UInt32.ofNat_toNat]

theorem readable_ofSpec (spec : DiceSpec) : (ofSpec spec).Readable where
  count := .inr (.inl (isNumber_text _))
  sides := isNumber_text _
  modifiers := by
    intro m hm
    obtain ⟨⟨marker, limit⟩, hmem, hsome⟩ := List.mem_filterMap.1 hm
    obtain ⟨n, -, rfl⟩ := Option.map_eq_some_iff.1 hsome
    refine ⟨?_, isNumber_text n⟩
    simp only [List.mem_cons, Prod.mk.injEq, List.not_mem_nil, or_false] at hmem
    rcases hmem with ⟨rfl, -⟩ | ⟨rfl, -⟩ | ⟨rfl, -⟩ <;> simp

theorem spec_ofSpec (spec : DiceSpec) : (ofSpec spec).spec = spec := by
  obtain ⟨count, sides, reroll, keepHighest, keepLowest⟩ := spec
  have hne : (Decimal.text count.toNat).toList ≠ [] := (isNumber_text count).ne_nil
  simp only [DiceLiteral.spec, ofSpec, if_neg hne, number_text]
  cases reroll <;> cases keepHighest <;> cases keepLowest <;> simp [last?, number_text]

theorem chars_ofSpec (spec : DiceSpec) : (ofSpec spec).chars = spec.text.toList := by
  obtain ⟨count, sides, reroll, keepHighest, keepLowest⟩ := spec
  cases reroll <;> cases keepHighest <;> cases keepLowest <;>
    simp [chars, ofSpec, written, DiceSpec.text, DiceSpec.modifierText]

/-! ## What is read -/

theorem read_eq_ok_iff {text : String} {spec : DiceSpec} :
    DiceSpec.read text = .ok spec ↔
      ∃ l : DiceLiteral, l.Readable ∧ text.toList = l.chars ∧ spec = l.spec := by
  constructor
  · intro h
    rcases read_cases text with hmalformed | ⟨l, tail, hl, htext, ⟨rfl, hok⟩ | ⟨-, hbreak⟩⟩
    · rw [hmalformed] at h
      cases h
    · rw [hok] at h
      cases h
      exact ⟨l, hl, by rwa [List.append_nil] at htext, rfl⟩
    · rw [hbreak] at h
      cases h
  · rintro ⟨l, hl, htext, rfl⟩
    rw [← List.append_nil l.chars] at htext
    obtain ⟨n, -, hread⟩ := read_of_readable hl htext nofun
    rw [hread]
    cases n <;> rfl

/-- A count may have a plus sign, numbers may have zeros in front, and the last `h` counts. -/
example : DiceSpec.read "+2d006h1l1h2" = .ok ⟨2, 6, none, some 2, some 1⟩ := by decide

theorem read_eq_breakdown_iff {text : String} :
    DiceSpec.read text = .error .breakdown ↔
      ∃ (l : DiceLiteral) (c : Char) (rest : List Char), l.Readable ∧ c.utf8Size ≠ 1 ∧
        text.toList = l.chars ++ c :: rest := by
  constructor
  · intro h
    rcases read_cases text with hmalformed | ⟨l, tail, hl, htext, ⟨-, hok⟩ | ⟨hwide, -⟩⟩
    · rw [hmalformed] at h
      cases h
    · rw [hok] at h
      cases h
    · obtain ⟨c, rest, rfl, hc⟩ := hwide
      exact ⟨l, c, rest, hl, hc, htext⟩
  · rintro ⟨l, c, rest, hl, hc, htext⟩
    have hhead : ∀ d ∈ (c :: rest).head?, Decimal.isDigit d = false := by
      rintro d ⟨⟩
      exact not_digit_of_wide hc
    obtain ⟨n, hn, hread⟩ := read_of_readable hl htext hhead
    obtain ⟨k, rfl⟩ : ∃ k, n = k + 1 := ⟨n - 1, by simp only [List.length_cons] at hn; omega⟩
    rw [hread, DiceSpec.modifiers, if_pos hc]

/-- What is asked for is read back from its text. A text is read exactly if it is a literal, and
then it gives what the literal asks for. Reading breaks down exactly if a character of several bytes
stands directly behind a literal, and every other text is refused as malformed. -/
theorem literals_are_read_and_break_down_before_wide_characters (spec : DiceSpec) (text : String) :
    DiceSpec.read spec.text = .ok spec ∧
    (∀ found, DiceSpec.read text = .ok found ↔
      ∃ l : DiceLiteral, l.Readable ∧ text.toList = l.chars ∧ found = l.spec) ∧
    (DiceSpec.read text = .error .breakdown ↔
      ∃ (l : DiceLiteral) (c : Char) (rest : List Char), l.Readable ∧ c.utf8Size ≠ 1 ∧
        text.toList = l.chars ++ c :: rest) := by
  refine ⟨read_eq_ok_iff.2 ?_, fun found => read_eq_ok_iff, read_eq_breakdown_iff⟩
  exact ⟨ofSpec spec, readable_ofSpec spec, (chars_ofSpec spec).symm, (spec_ofSpec spec).symm⟩

/-- Reading breaks down at a letter with an accent behind a die. -/
theorem a_wide_character_breaks_reading_down :
    ¬ ∀ text, DiceSpec.read text ≠ .error .breakdown := by
  intro h
  exact h "1d6é" (by decide)

end DiceLiteral

end DiceScript
