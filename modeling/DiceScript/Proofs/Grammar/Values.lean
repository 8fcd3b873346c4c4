import DiceScript.Proofs.Grammar.Levels
import DiceScript.Proofs.Value.Words

/-!
Values as they are read. A string in front of a colon is a key, and what follows the colon binds
tighter than the dots of a range. So a range that stands behind a key is read as a range that begins
with the pair.
-/

namespace DiceScript

namespace Value

/-- The upper end of the range that a value ends with, as it is written. -/
def rangeEnd? : Value → Option Integer
  | .range r => some r.upper
  | .pair _ value => value.rangeEnd?
  | _ => none

/-- The value in front of the dots, if a value is written with a range at its end. -/
def front : Value → Value
  | .range r => .int r.lower
  | .pair key value => .pair key value.front
  | v => v

theorem words_eq (v : Value) :
    v.words = v.front.words ++
      match v.rangeEnd? with
      | some n => .mark .dotDot :: n.words
      | none => [] := by
  fun_induction front v with
  | case1 r => simp [words, rangeEnd?]
  | case2 key value ih =>
    rw [words, words, ih, rangeEnd?]
    simp
  | case3 v hrange hpair =>
    cases v with
    | range r => exact absurd rfl (hrange r)
    | pair key value => exact absurd rfl (hpair key value)
    | _ => simp [rangeEnd?]

theorem listed_begins {v : Value} {P : Word → Prop} (h : ∃ w rest, v.words = w :: rest ∧ P w)
    (vs : List Value) : ∃ w rest, listed (v :: vs) = w :: rest ∧ P w := by
  obtain ⟨w, rest, hwords, hw⟩ := h
  cases vs with
  | nil => exact ⟨w, rest, hwords, hw⟩
  | cons u vs => exact ⟨w, _, by rw [listed, hwords, List.cons_append]; nofun, hw⟩

/-- There are as many commas as elements behind the first. -/
theorem length_le_listed (vs : List Value) : vs.length ≤ (listed vs).length + 1 := by
  induction vs with
  | nil => exact Nat.zero_le _
  | cons v vs ih =>
    cases vs with
    | nil => exact Nat.le_add_left _ _
    | cons w vs =>
      rw [listed, List.length_append]
      · simp only [List.length_cons] at ih ⊢
        omega
      · nofun

/-- The text of a value begins with a number, a string or a bracket. -/
theorem Data.words_begin {v : Value} (h : v.Data) :
    ∃ w rest, v.words = w :: rest ∧ Grammar.begins w.kind = true := by
  have hnumber : ∀ n : Integer, ∃ w rest, n.words = w :: rest ∧ Grammar.begins w.kind = true := by
    intro n
    unfold Integer.words
    cases n.toInt with
    | ofNat k => exact ⟨_, _, rfl, rfl⟩
    | negSucc k => exact ⟨_, _, rfl, rfl⟩
  cases h with
  | int n => exact hnumber n
  | str s => exact ⟨_, _, rfl, rfl⟩
  | range r =>
    obtain ⟨w, rest, hwords, hw⟩ := hnumber r.lower
    exact ⟨w, _, by rw [words, hwords, List.cons_append], hw⟩
  | pair key hv => exact ⟨_, _, rfl, rfl⟩
  | array hkeys helements => exact ⟨_, _, rfl, rfl⟩

end Value

namespace Grammar

open Reader Operators

/-! ## What tokens give -/

/-- The tokens of these words give an expression of some form at a level, where colons make pairs
and whatever is read after them. Mistakes may be noted on the way. -/
def ReadsAs (l : Level) (ws : List Word) (P : Expr → Prop) : Prop :=
  ∀ (n : Nat) (s : Setting) (before ts after : List Token) (ms : List String),
    s.pairs = true → ts.map Token.word = ws → Stops true l (kindOf after) →
    (ts ++ after).length ≤ n →
    ∃ e noted, P e ∧ outcome (l.reader (readWithin n)) s ⟨⟨before, ts ++ after⟩, ms⟩ =
      some (e, ⟨⟨ts.reverse ++ before, after⟩, noted⟩)

theorem Stops.comma (l : Level) : Stops true l .comma where
  operators := fun m _ => by cases m <;> rfl
  question := fun _ => by decide
  colon := fun h => by cases h
  suffix := by decide

theorem Stops.closeSquare (l : Level) : Stops true l .closeSquare where
  operators := fun m _ => by cases m <;> rfl
  question := fun _ => by decide
  colon := fun h => by cases h
  suffix := by decide

/-- What ends an expression ends a pair in it. -/
theorem Stops.to_pair {l : Level} {kind : TokenKind} (h : Stops true l kind)
    (hl : l.rank ≤ Level.pair.rank) : Stops true .pair kind where
  operators := fun m hm => h.operators m (Nat.le_trans hl hm)
  question := nofun
  colon := h.colon
  suffix := h.suffix

/-- Two operands with the dots of a range between them. -/
theorem outcome_range {read : Goal → Reader Expr} {s : Setting} {p q r : Progress} {a b : Expr}
    (ha : outcome (relation read) s p = some (a, q)) (hdots : q.cursor.kind = .dotDot)
    (hb : outcome (relation read) s q.advanced = some (b, r))
    (hr : equality? r.cursor.kind = none) :
    outcome (equality read) s p = some (.binary .range a b, r) := by
  obtain ⟨⟨before, rest⟩, ms⟩ := q
  cases rest with
  | nil => cases hdots
  -- there is a turn for the dots, and one to see that no other operator follows
  | cons t rest =>
    rw [equality, chain, outcome_bind, ha, Option.bind_some, outcome_bind, outcome_remaining,
      Option.bind_some]
    show outcome (chainFrom _ _ (rest.length + 2) a) s _ = _
    rw [chainFrom, outcome_bind, outcome_peek, Option.bind_some, hdots]
    show outcome (advance >>= _) s _ = _
    rw [outcome_bind, outcome_advance, Option.bind_some, outcome_bind, hb, Option.bind_some,
      chainFrom, outcome_bind, outcome_peek, Option.bind_some, hr]
    rfl

namespace ReadsAs

variable {l : Level} {ws : List Word} {P Q : Expr → Prop}

theorem imp (h : ReadsAs l ws P) (hPQ : ∀ e, P e → Q e) : ReadsAs l ws Q := by
  intro n s before ts after ms hpairs hts hstops hn
  obtain ⟨e, noted, he, houtcome⟩ := h n s before ts after ms hpairs hts hstops hn
  exact ⟨e, noted, hPQ e he, houtcome⟩

/-! ## Leaves -/

/-- A numeral gives its number, or a mistake if the number does not fit. -/
theorem numeral (k : Nat) :
    ReadsAs .leaf [.numeral k] fun e =>
      (∃ n, Integer.ofInt? k = some n ∧ e = .number n) ∨
        Integer.ofInt? k = none ∧ ∃ message, e = .error message := by
  intro n s before ts after ms _ hts hstops _
  obtain ⟨t, rfl, ht⟩ := List.map_eq_singleton_iff.mp hts
  have hkind : t.kind = .integer := congrArg Word.kind ht
  have htext : t.text = Decimal.text k := congrArg Word.text ht
  have hread := Integer.read?_text k
  have hadvanced : Progress.advanced ⟨⟨before, t :: after⟩, ms⟩ = ⟨⟨t :: before, after⟩, ms⟩ := rfl
  have hsuffix := kind_mk (t :: before) after ▸ hstops.suffix
  cases hfits : Integer.ofInt? k with
  | some number =>
    refine ⟨.number number, ms, .inl ⟨number, rfl, rfl⟩, outcome_suffixed ?_ hsuffix⟩
    rw [List.singleton_append, outcome_leaf]
    simp only [leafAt, hkind, htext, hread, hfits, outcome_bind, outcome_advance,
      Option.bind_some, outcome_pure, hadvanced]
    rfl
  | none =>
    let message := Mistake.integerTooLarge.message (Cursor.mk before (t :: after)).window
    refine ⟨.error message, ms ++ [message], .inr ⟨rfl, message, rfl⟩, outcome_suffixed ?_ hsuffix⟩
    rw [List.singleton_append, outcome_leaf]
    simp only [leafAt, hkind, htext, hread, hfits, outcome_bind, outcome_advance,
      Option.bind_some, hadvanced, outcome_mistakeAt]
    rfl

end ReadsAs

/-- A string is a leaf. -/
theorem outcome_leaf_string (read : Goal → Reader Expr) (s : Setting) (before after : List Token)
    {t : Token} {text : String} (ht : t.word = .string text) (ms : List String) :
    outcome (leaf read) s ⟨⟨before, t :: after⟩, ms⟩ =
      some (.text text, ⟨⟨t :: before, after⟩, ms⟩) := by
  have hkind : t.kind = .string := congrArg Word.kind ht
  have htext : t.text = text := congrArg Word.text ht
  rw [outcome_leaf]
  simp only [leafAt, hkind, htext, outcome_bind, outcome_advance, Option.bind_some, outcome_pure]
  rfl

namespace ReadsAs

variable {l : Level} {ws : List Word} {P Q : Expr → Prop}

theorem string (text : String) : ReadsAs .leaf [.string text] (· = .text text) := by
  intro n s before ts after ms _ hts hstops _
  obtain ⟨t, rfl, ht⟩ := List.map_eq_singleton_iff.mp hts
  have hsuffix := kind_mk (t :: before) after ▸ hstops.suffix
  exact ⟨_, ms, rfl, outcome_suffixed (outcome_leaf_string _ s before after ht ms) hsuffix⟩

/-! ## Levels -/

/-- A number, a string or an array, in front of which no operator stands. -/
theorem unary_of_leaf {w : Word} {rest : List Word}
    (hw : w.kind = .integer ∨ w.kind = .string ∨ w.kind = .openSquare)
    (h : ReadsAs .leaf (w :: rest) P) : ReadsAs .unary (w :: rest) P := by
  intro n s before ts after ms hpairs hts hstops hn
  obtain ⟨e, noted, he, houtcome⟩ := h n s before ts after ms hpairs hts hstops.tighter hn
  obtain ⟨t, ts, rfl, rfl, -⟩ := List.map_eq_cons_iff.mp hts
  have hfirst : unary? t.word.kind = none ∧ t.word.kind ≠ .dollar := by
    rcases hw with hw | hw | hw <;> rw [hw] <;> decide
  exact ⟨e, noted, he, outcome_unary_of_suffixed (kind_mk before _ ▸ hfirst.1)
    (kind_mk before _ ▸ hfirst.2) houtcome⟩

theorem negated (h : ReadsAs .unary ws P) :
    ReadsAs .unary (.mark .minus :: ws) fun e => ∃ f, P f ∧ e = .unary .negate f := by
  intro n s before ts after ms hpairs hts hstops hn
  obtain ⟨t, ts, rfl, ht, htail⟩ := List.map_eq_cons_iff.mp hts
  have hkind : (Cursor.mk before (t :: (ts ++ after))).kind = .minus := congrArg Word.kind ht
  simp only [List.cons_append, List.length_cons, List.length_append] at hn ⊢
  obtain ⟨n, rfl⟩ : ∃ i, n = i + 1 := ⟨n - 1, by omega⟩
  obtain ⟨e, noted, he, houtcome⟩ := h n s (t :: before) ts after ms hpairs htail hstops
    (by rw [List.length_append]; omega)
  refine ⟨.unary .negate e, noted, ⟨e, he, rfl⟩, outcome_unary_of_mark (by rw [hkind]; rfl) ?_⟩
  rw [List.reverse_cons, List.append_assoc]
  exact houtcome

theorem pair_of_unary (h : ReadsAs .unary ws P) : ReadsAs .pair ws P := by
  intro n s before ts after ms hpairs hts hstops hn
  obtain ⟨e, noted, he, houtcome⟩ := h n s before ts after ms hpairs hts hstops.tighter hn
  refine ⟨e, noted, he, outcome_pair_of_unary houtcome fun _ hkind => ?_⟩
  cases hstops.colon (kind_mk _ after ▸ hkind)

/-- A key in front of a value. -/
theorem keyed (key : String) (h : ReadsAs .pair ws P) :
    ReadsAs .pair (.string key :: .mark .colon :: ws) fun e =>
      ∃ f, P f ∧ e = .pair (.text key) f := by
  intro n s before ts after ms hpairs hts hstops hn
  obtain ⟨t, tail, rfl, ht, htail⟩ := List.map_eq_cons_iff.mp hts
  obtain ⟨u, ts, rfl, hu, hts⟩ := List.map_eq_cons_iff.mp htail
  have hkey : t.kind = .string := congrArg Word.kind ht
  have hcolon : u.kind = .colon := congrArg Word.kind hu
  simp only [List.cons_append, List.length_cons, List.length_append] at hn ⊢
  obtain ⟨n, rfl⟩ : ∃ i, n = i + 1 := ⟨n - 1, by omega⟩
  obtain ⟨e, noted, he, houtcome⟩ := h n s (u :: t :: before) ts after ms hpairs hts hstops
    (by rw [List.length_append]; omega)
  have hnext : (Cursor.mk (t :: before) (u :: (ts ++ after))).kind = .colon := hcolon
  have hfirst : (Cursor.mk before (t :: u :: (ts ++ after))).kind = .string := hkey
  -- the key is read without looking at the colon behind it
  have hread : outcome (Grammar.unary (readWithin (n + 1))) s
      ⟨⟨before, t :: u :: (ts ++ after)⟩, ms⟩ =
      some (.text key, ⟨⟨t :: before, u :: (ts ++ after)⟩, ms⟩) :=
    outcome_unary_of_suffixed (by rw [hfirst]; rfl) (by rw [hfirst]; decide)
      (outcome_suffixed (outcome_leaf_string _ s before _ ht ms) (by rw [hnext]; decide))
  refine ⟨.pair (.text key) e, noted, ⟨e, he, rfl⟩, outcome_pair_of_colon hpairs hread hnext ?_⟩
  rw [List.reverse_cons, List.reverse_cons, List.append_assoc, List.append_assoc]
  exact houtcome

theorem relation_of_pair (h : ReadsAs .pair ws P) : ReadsAs .relation ws P := by
  intro n s before ts after ms hpairs hts hstops hn
  obtain ⟨e, noted, he, houtcome⟩ :=
    h n s before ts after ms hpairs hts (hstops.to_pair (by decide)) hn
  exact ⟨e, noted, he, outcome_relation_of_pair houtcome (kind_mk _ after ▸ hstops.operators)⟩

theorem equality_of_pair (h : ReadsAs .pair ws P) : ReadsAs .equality ws P := by
  intro n s before ts after ms hpairs hts hstops hn
  obtain ⟨e, noted, he, houtcome⟩ :=
    h.relation_of_pair n s before ts after ms hpairs hts hstops.tighter hn
  have hequality : Level.equality.operators (kindOf after) = none :=
    hstops.operators _ (Nat.le_refl _)
  exact ⟨e, noted, he, outcome_looser (l := .equality) rfl houtcome (kind_mk _ after ▸ hequality)⟩

/-- A range whose ends are written as pairs may be. -/
theorem range {xs ys : List Word} (ha : ReadsAs .pair xs P) (hb : ReadsAs .pair ys Q) :
    ReadsAs .equality (xs ++ .mark .dotDot :: ys) fun e =>
      ∃ a b, P a ∧ Q b ∧ e = .binary .range a b := by
  intro n s before ts after ms hpairs hts hstops hn
  obtain ⟨ts₁, tail, rfl, h₁, htail⟩ := List.map_eq_append_iff.mp hts
  obtain ⟨t, ts₂, rfl, ht, h₂⟩ := List.map_eq_cons_iff.mp htail
  have hkind : t.kind = .dotDot := congrArg Word.kind ht
  have hdots : kindOf (t :: (ts₂ ++ after)) = .dotDot := hkind
  simp only [List.append_assoc, List.cons_append, List.length_append, List.length_cons] at hn ⊢
  obtain ⟨a, noted₁, hPa, hread₁⟩ := ha.relation_of_pair n s before ts₁ (t :: (ts₂ ++ after)) ms
    hpairs h₁ (hdots ▸ .before_operator true .range)
    (by simp only [List.length_append, List.length_cons]; omega)
  obtain ⟨b, noted₂, hQb, hread₂⟩ :=
    hb.relation_of_pair n s (t :: (ts₁.reverse ++ before)) ts₂ after
    noted₁ hpairs h₂ hstops.tighter (by rw [List.length_append]; omega)
  have hequality : Level.equality.operators (kindOf after) = none :=
    hstops.operators _ (Nat.le_refl _)
  refine ⟨.binary .range a b, noted₂, ⟨a, b, hPa, hQb, rfl⟩, ?_⟩
  have hbefore : (ts₁ ++ t :: ts₂).reverse ++ before =
      ts₂.reverse ++ t :: (ts₁.reverse ++ before) := by simp
  rw [hbefore]
  exact outcome_range hread₁ hkind hread₂ (kind_mk _ after ▸ hequality)

theorem conditional_of_equality {w : Word} {rest : List Word} (hw : w.kind ≠ .ifWord)
    (h : ReadsAs .equality (w :: rest) P) : ReadsAs .conditional (w :: rest) P := by
  intro n s before ts after ms hpairs hts hstops hn
  obtain ⟨e, noted, he, houtcome⟩ :=
    h n s before ts after ms hpairs hts hstops.tighter.tighter.tighter.tighter hn
  obtain ⟨t, ts, rfl, rfl, -⟩ := List.map_eq_cons_iff.mp hts
  have hoperators : ∀ l : Level, l.operators (kindOf after) = none :=
    fun l => hstops.operators l (Nat.zero_le _)
  exact ⟨e, noted, he, outcome_conditional (kind_mk before _ ▸ hw)
    (outcome_disjunction_of_equality houtcome (kind_mk _ after ▸ hoperators))
    (kind_mk _ after ▸ hstops.question rfl)⟩

end ReadsAs

/-! ## Arrays -/

section

variable {P : Value → Expr → Prop} {elements : List Value}

/-- One element and what follows it. -/
theorem outcome_itemsFrom {read : Goal → Reader Expr} {s : Setting} {p q : Progress} {e : Expr}
    (he : outcome (read .conditional) { s with pairs := true } p = some (e, q)) (m : Mistake)
    (k : Nat) :
    outcome (itemsFrom read .closeSquare m (k + 1)).run s p =
      if q.cursor.kind = .comma then
        (outcome (itemsFrom read .closeSquare m k).run s q.advanced).bind fun r =>
          some (r.1.map (e :: ·), r.2)
      else if q.cursor.kind = .closeSquare then some (.ok [e], q.advanced)
      else outcome (Attempt.fail m : Attempt (List Expr)).run s q := by
  rw [itemsFrom, Attempt.outcome_bind, Attempt.outcome_lift, outcome_withPairs, he]
  show outcome (liftM peek >>= _ : Attempt (List Expr)).run s q = _
  rw [Attempt.outcome_peek_bind]
  split
  · show outcome (liftM advance >>= _ : Attempt (List Expr)).run s q = _
    rw [Attempt.outcome_bind, Attempt.outcome_lift, outcome_advance]
    show outcome (itemsFrom read .closeSquare m k >>= _ : Attempt (List Expr)).run s q.advanced = _
    rw [Attempt.outcome_bind]
    rcases outcome (itemsFrom read .closeSquare m k).run s q.advanced with _ | ⟨_ | _, r⟩ <;> rfl
  · split <;> rfl

/-- The tokens of elements give their expressions, up to the closing bracket. -/
theorem outcome_elements (hne : elements ≠ [])
    (h : ∀ v ∈ elements, ReadsAs .conditional v.words (P v)) (m : Mistake) (n k : Nat) (s : Setting)
    (before ts after : List Token) (ms : List String) {closing : Token}
    (hts : ts.map Token.word = Value.listed elements) (hclosing : closing.kind = .closeSquare)
    (hn : (ts ++ closing :: after).length ≤ n) (hk : elements.length ≤ k) :
    ∃ es noted, List.Forall₂ P elements es ∧
      outcome (itemsFrom (readWithin (n + 1)) .closeSquare m k).run s
        ⟨⟨before, ts ++ closing :: after⟩, ms⟩ =
        some (.ok es, ⟨⟨closing :: (ts.reverse ++ before), after⟩, noted⟩) := by
  induction elements generalizing k before ts ms with
  | nil => exact absurd rfl hne
  | cons v vs ih =>
    obtain ⟨hv, hvs⟩ := List.forall_mem_cons.1 h
    rw [List.length_cons] at hk
    obtain ⟨k, rfl⟩ : ∃ i, k = i + 1 := ⟨k - 1, by omega⟩
    cases vs with
    | nil =>
      have hkind : kindOf (closing :: after) = .closeSquare := hclosing
      obtain ⟨e, noted, he, houtcome⟩ := hv n { s with pairs := true } before ts (closing :: after)
        ms rfl hts (hkind ▸ .closeSquare .conditional) hn
      refine ⟨[e], noted, .cons he .nil, ?_⟩
      rw [outcome_itemsFrom houtcome, kind_mk, hkind, if_neg (by decide), if_pos rfl]
      rfl
    -- a comma stands behind the first element, and then come the others
    | cons w vs =>
      obtain ⟨ts₁, tail, rfl, h₁, htail⟩ := List.map_eq_append_iff.mp hts
      obtain ⟨t, ts₂, rfl, ht, h₂⟩ := List.map_eq_cons_iff.mp htail
      have hcomma : t.kind = .comma := congrArg Word.kind ht
      have hkind : kindOf (t :: (ts₂ ++ closing :: after)) = .comma := hcomma
      simp only [List.append_assoc, List.cons_append, List.length_append, List.length_cons]
        at hn hk ⊢
      obtain ⟨e, noted₁, he, houtcome⟩ := hv n { s with pairs := true } before ts₁
        (t :: (ts₂ ++ closing :: after)) ms rfl h₁ (hkind ▸ .comma .conditional)
        (by simp only [List.length_append, List.length_cons]; omega)
      obtain ⟨es, noted₂, hes, hothers⟩ := ih (List.cons_ne_nil _ _) hvs k
        (t :: (ts₁.reverse ++ before)) ts₂ noted₁ h₂
        (by simp only [List.length_append, List.length_cons]; omega)
        (by rw [List.length_cons]; omega)
      refine ⟨e :: es, noted₂, .cons he hes, ?_⟩
      have hadvanced : Progress.advanced
          ⟨⟨ts₁.reverse ++ before, t :: (ts₂ ++ closing :: after)⟩, noted₁⟩ =
          ⟨⟨t :: (ts₁.reverse ++ before), ts₂ ++ closing :: after⟩, noted₁⟩ := rfl
      rw [outcome_itemsFrom houtcome, kind_mk, hkind, if_pos rfl, hadvanced, hothers,
        Option.bind_some]
      simp [Except.map]

/-- The elements may be none. -/
theorem outcome_items (hbegins : ∀ v ∈ elements, ∃ w rest, v.words = w :: rest ∧
      begins w.kind = true) (h : ∀ v ∈ elements, ReadsAs .conditional v.words (P v)) (m : Mistake)
    (n : Nat) (s : Setting) (before ts after : List Token) (ms : List String) {closing : Token}
    (hts : ts.map Token.word = Value.listed elements) (hclosing : closing.kind = .closeSquare)
    (hn : (ts ++ closing :: after).length ≤ n) :
    ∃ es noted, List.Forall₂ P elements es ∧
      outcome (items (readWithin (n + 1)) .closeSquare m).run s
        ⟨⟨before, ts ++ closing :: after⟩, ms⟩ =
        some (.ok es, ⟨⟨closing :: (ts.reverse ++ before), after⟩, noted⟩) := by
  cases elements with
  | nil =>
    obtain rfl := List.map_eq_nil_iff.mp hts
    have hkind : (Cursor.mk before (closing :: after)).kind = .closeSquare := hclosing
    refine ⟨[], ms, .nil, ?_⟩
    rw [items, Attempt.outcome_bind, Attempt.outcome_lift, List.nil_append, outcome_consumeIf,
      if_pos hkind]
    rfl
  | cons v vs =>
    -- the first token is that of an element, and there is a turn for every element
    obtain ⟨w, rest, hwords, hw⟩ := Value.listed_begins (hbegins v List.mem_cons_self) vs
    have hlength := congrArg List.length hts
    rw [List.length_map] at hlength
    have hle := Value.length_le_listed (v :: vs)
    rw [hwords] at hts
    obtain ⟨t, tail, rfl, rfl, -⟩ := List.map_eq_cons_iff.mp hts
    have hkind : (Cursor.mk before (t :: tail ++ closing :: after)).kind ≠ .closeSquare := by
      intro heq
      rw [show t.word.kind = .closeSquare from heq] at hw
      cases hw
    obtain ⟨es, noted, hes, houtcome⟩ := outcome_elements (List.cons_ne_nil v vs) h m n
      ((t :: tail ++ closing :: after).length + 1) s before (t :: tail) after ms
      (hts.trans hwords.symm) hclosing hn (by rw [List.length_append]; omega)
    refine ⟨es, noted, hes, ?_⟩
    rw [items, Attempt.outcome_bind, Attempt.outcome_lift, outcome_consumeIf, if_neg hkind]
    exact houtcome

/-- An array whose elements can be read, and none of which begins with a closing bracket. -/
theorem ReadsAs.array (hbegins : ∀ v ∈ elements, ∃ w rest, v.words = w :: rest ∧
      begins w.kind = true) (h : ∀ v ∈ elements, ReadsAs .conditional v.words (P v)) :
    ReadsAs .leaf (.mark .openSquare :: (Value.listed elements ++ [.mark .closeSquare])) fun e =>
      ∃ es, List.Forall₂ P elements es ∧ e = .array es := by
  intro n s before ts after ms hpairs hts hstops hn
  obtain ⟨t, tail, rfl, ht, htail⟩ := List.map_eq_cons_iff.mp hts
  obtain ⟨inner, last, rfl, hinner, hlast⟩ := List.map_eq_append_iff.mp htail
  obtain ⟨u, rfl, hu⟩ := List.map_eq_singleton_iff.mp hlast
  have hopen : t.kind = .openSquare := congrArg Word.kind ht
  have hclose : u.kind = .closeSquare := congrArg Word.kind hu
  simp only [List.cons_append, List.append_assoc, List.nil_append, List.length_cons,
    List.length_append] at hn ⊢
  obtain ⟨n, rfl⟩ : ∃ i, n = i + 1 := ⟨n - 1, by omega⟩
  obtain ⟨es, noted, hes, hitems⟩ :=
    outcome_items hbegins h .arrayList n s (t :: before) inner after
    ms hinner hclose (by simp only [List.length_append, List.length_cons]; omega)
  have hadvanced : Progress.advanced ⟨⟨before, t :: (inner ++ u :: after)⟩, ms⟩ =
      ⟨⟨t :: before, inner ++ u :: after⟩, ms⟩ := rfl
  refine ⟨.array es, noted, ⟨es, hes, rfl⟩, outcome_suffixed ?_ ?_⟩
  · rw [outcome_leaf]
    simp only [leafAt, hopen, outcome_bind, outcome_advance, Option.bind_some, hadvanced,
      outcome_settle, Attempt.outcome_bind, hitems, Attempt.outcome_pure]
    simp
  · rw [kind_mk]
    exact hstops.suffix

end

/-! ## Whole values -/

/-- The text of words that give an expression has an expression of that form. -/
theorem ReadsAs.parse {w : Word} {ws : List Word} {P : Expr → Prop} {text : String}
    (h : ReadsAs .conditional (w :: ws) P) (hbegins : begins w.kind = true)
    (htext : Token.Shows (w :: ws) text.toList []) : P (Script.ofText text).root := by
  have hwords : (scanned text).map Token.word = w :: ws := htext.words
  obtain ⟨e, noted, he, houtcome⟩ :=
    h (scanned text).length ⟨text.toList, true⟩ [] (scanned text) []
    [] rfl hwords (.finish true .conditional) (by rw [List.append_nil])
  rw [List.append_nil] at houtcome
  have hfirst : begins (kindOf (scanned text)) = true := by
    obtain ⟨t, ts, htokens, rfl, -⟩ := List.map_eq_cons_iff.mp hwords
    rw [htokens]
    exact hbegins
  rw [parse_eq_of_conditional hfirst houtcome rfl]
  exact he

/-- A variable behind the mark that defers it. -/
theorem outcome_deferred {name : String} {t u : Token} (ht : t.word = .mark .pound)
    (hu : u.word = .identifier name) (s : Setting) :
    outcome (conditional (readWithin 2)) s ⟨.ofTokens [t, u], []⟩ =
      some (.defer (.var name), ⟨⟨[u, t], []⟩, []⟩) := by
  have hpound : (Cursor.ofTokens [t, u]).kind = .pound := congrArg Word.kind ht
  have hidentifier : (Cursor.mk [t] [u]).kind = .identifier := congrArg Word.kind hu
  have hend : (Cursor.mk [u, t] []).kind = .finish := rfl
  have hvar : outcome (suffixed (readWithin 1)) s ⟨⟨[t], [u]⟩, []⟩ =
      some (.var name, ⟨⟨[u, t], []⟩, []⟩) :=
    Reads.var 1 s [t] [u] [] [] (List.map_singleton.trans (congrArg List.singleton hu))
      (.finish s.pairs .leaf) nofun (Nat.le_refl 1)
  have hoperand : outcome (readWithin 2 .unary) s ⟨⟨[t], [u]⟩, []⟩ =
      some (.var name, ⟨⟨[u, t], []⟩, []⟩) :=
    outcome_unary_of_suffixed (by rw [hidentifier]; rfl) (by rw [hidentifier]; decide) hvar
  have hunary : outcome (Grammar.unary (readWithin 2)) s ⟨.ofTokens [t, u], []⟩ =
      some (.defer (.var name), ⟨⟨[u, t], []⟩, []⟩) :=
    outcome_unary_of_mark (by rw [hpound]; rfl) hoperand
  have hpair := outcome_pair_of_unary hunary (fun _ => by rw [hend]; decide)
  exact outcome_conditional (by rw [hpound]; decide)
    (outcome_disjunction_of_pair hpair (hend ▸ Level.operators_finish)) (by rw [hend]; decide)

theorem parse_deferred {name : String} (hname : IsName name) :
    Script.ofText ("#" ++ name) = ⟨.defer (.var name), []⟩ := by
  have hvar : Token.Shows [.identifier name] name.toList [] :=
    .single (Token.identifier_lexes (Token.name_spelled hname) nofun)
  have hshows : Token.Shows [.mark .pound, .identifier name] ("#" ++ name).toList [] := by
    rw [String.toList_append]
    exact .word (Token.mark_lexes (by decide) rfl _) hvar
  generalize "#" ++ name = text at hshows ⊢
  obtain ⟨t, tail, htokens, ht, htail⟩ := List.map_eq_cons_iff.mp hshows.words
  obtain ⟨u, rfl, hu⟩ := List.map_eq_singleton_iff.mp htail
  change scanned text = [t, u] at htokens
  have hbegins : begins (kindOf (scanned text)) = true := by
    rw [htokens]
    exact congrArg (fun w => begins w.kind) ht
  have houtcome := outcome_deferred ht hu ⟨text.toList, true⟩
  rw [show 2 = (scanned text).length by rw [htokens]; rfl, ← htokens] at houtcome
  exact parse_eq_of_conditional hbegins houtcome rfl

end Grammar

end DiceScript
