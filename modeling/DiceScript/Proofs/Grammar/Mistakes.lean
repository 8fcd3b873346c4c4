import DiceScript.Proofs.Grammar.Bounds
import DiceScript.Proofs.Grammar.Inset.Mirror

/-!
What the tree of a script tells about how it was read. The nodes of mistakes in it are among the
mistakes that were noted, one of them is there if any was noted, every function in it was cut out of
the tokens, and all dice in it are tokens of dice. Readers are put together so that the trees they
give keep telling it, and so that nothing is said of the dice unless reading a token of dice comes
to it.
-/

namespace DiceScript

/-! ## The nodes of a tree -/

mutual

/-- The nodes of a tree, each in front of those below it, from left to right. -/
def Expr.nodes (e : Expr) : List Expr :=
  e ::
    match e with
    | .empty | .number _ | .text _ | .symbol _ | .var _ | .dice _ | .stored _ | .error _
    | .function .. => []
    | .unary _ a | .property a _ | .assign _ _ a | .defer a | .event a => a.nodes
    | .binary _ a b | .shift _ a b | .pair a b | .multiplied _ a b | .index a b
    | .assignIndex a _ b | .loop _ a b | .sequence a b | .pipe a b => a.nodes ++ b.nodes
    | .ternary a b c => a.nodes ++ (b.nodes ++ c.nodes)
    | .call _ args | .array args => Expr.nodesOfAll args
    | .method a _ args | .apply a args => a.nodes ++ Expr.nodesOfAll args
    | .choice branches => branches.nodes
    | .bonus name type value => name.nodes ++ (Expr.nodesOfAny type ++ Expr.nodesOfAny value)

/-- The nodes of several trees. -/
def Expr.nodesOfAll : List Expr → List Expr
  | [] => []
  | e :: es => e.nodes ++ Expr.nodesOfAll es

/-- The nodes of a tree that may be missing. -/
def Expr.nodesOfAny : Option Expr → List Expr
  | none => []
  | some e => e.nodes

/-- The nodes of the conditions and blocks of branches. -/
def Branches.nodes : Branches → List Expr
  | .done => []
  | .otherwise body => body.nodes
  | .test condition body rest => condition.nodes ++ (body.nodes ++ rest.nodes)

end

/-- The message of a node that takes the place of something mistaken. -/
def Expr.message? : Expr → Option String
  | .error message => some message
  | _ => none

/-- The messages of the mistakes among nodes. -/
def messages (nodes : List Expr) : List String := nodes.filterMap Expr.message?

theorem messages_append (xs ys : List Expr) : messages (xs ++ ys) = messages xs ++ messages ys :=
  List.filterMap_append

theorem messages_eq_nil_iff {nodes : List Expr} :
    messages nodes = [] ↔ ∀ e ∈ nodes, e.isError = false := by
  have hone : ∀ e : Expr, e.message? = none ↔ e.isError = false := by
    intro e
    cases e <;> simp [Expr.message?, Expr.isError]
  simp only [messages, List.filterMap_eq_nil_iff, hone]

/-! ## What nodes tell -/

/-- A function that was cut out of the tokens of a text. Its parameters are the implicit ones or
identifiers among the tokens. Its body is the text between curly brackets that match, without the
blanks at its ends. -/
structure CutOut (source : List Char) (tokens : List Token) (params : List String)
    (body : String) : Prop where
  named : params = Grammar.implicitParams ∨
    ∀ name ∈ params, ∃ token ∈ tokens, token.kind = .identifier ∧ token.text = name
  enclosed : ∃ front rest g, tokens = front ++ rest ∧ Cursor.groupAt? rest = some g ∧
    g.opening.kind = .openCurly ∧
    body = String.ofList
      (Text.trim (Text.slice source g.opening.span.last.offset.toNat
        g.closing.span.first.offset.toNat))

variable (source : List Char) (tokens : List Token)

/-- Whether reading a token of dice comes to something. -/
def DiceAmong (reading : Except DiceSpec.Failure DiceSpec) : Prop :=
  ∃ token ∈ tokens, token.kind = .dice ∧ DiceSpec.read token.text = reading

/-- What reading dice came to, when a mistake is noted for it. -/
def Mistake.blamed? : Mistake → Option DiceSpec.Failure
  | .invalidDice => some .malformed
  | .brokenDice => some .breakdown
  | _ => none

/-- A mistake that is noted for dice only if reading dice among the tokens comes to it. -/
def Mistake.FairOnDice (m : Mistake) : Prop :=
  ∀ failure, m.blamed? = some failure → DiceAmong tokens (.error failure)

/-- Messages that begin with what is said of dice only if it is fair to say so. -/
def FairOnDice (noted : List String) : Prop :=
  ∀ message ∈ noted, ∀ m : Mistake, m.text.toList <+: message.toList → m.FairOnDice tokens

/-- Nodes that tell what was noted while they were read, and hold functions and dice of the text
only. -/
structure Kept (noted : List String) (nodes : List Expr) : Prop where
  messages_sublist : (messages nodes).Sublist noted
  messages_ne_nil : noted ≠ [] → messages nodes ≠ []
  functions : ∀ params body, .function params body ∈ nodes → CutOut source tokens params body
  dice : ∀ spec, .dice spec ∈ nodes → DiceAmong tokens (.ok spec)

/-- A node that is no mistake, no function and no dice, and so tells nothing by itself. -/
def Expr.tellsNothing : Expr → Bool
  | .error _ | .function .. | .dice _ => false
  | _ => true

variable {source tokens} {noted new : List String} {nodes xs ys : List Expr} {e : Expr}

namespace Mistake

theorem message_parts (m : Mistake) (window : String) :
    ∃ back, (m.message window).toList = m.text.toList ++ back := by
  unfold message
  split
  · exact ⟨[], (List.append_nil _).symm⟩
  · refine ⟨": `".toList ++ (window.toList ++ "`".toList), ?_⟩
    simp only [String.toList_append, List.append_assoc]

/-- No other text of a mistake begins like what is said of dice. -/
theorem eq_of_blamed {m blamed : Mistake} {failure : DiceSpec.Failure} {back : List Char}
    (h : blamed.blamed? = some failure) (hfront : blamed.text.toList <+: m.text.toList ++ back) :
    m = blamed := by
  have hinvalid : Mistake.invalidDice.text = "invalid dice" := rfl
  have hbroken : Mistake.brokenDice.text = "byte index 1 is not a char boundary" := rfl
  have hblamed : blamed = .invalidDice ∨ blamed = .brokenDice := by
    cases blamed <;> first | exact .inl rfl | exact .inr rfl | cases h
  rcases hblamed with rfl | rfl
  · rw [hinvalid] at hfront
    cases m
    case invalidDice => rfl
    all_goals
      unfold Mistake.text at hfront
      simp at hfront
  · rw [hbroken] at hfront
    cases m
    case brokenDice => rfl
    all_goals
      unfold Mistake.text at hfront
      simp at hfront

/-- A mistake that says nothing of dice is fair. -/
theorem FairOnDice.of_blamed {m : Mistake} (h : m.blamed? = none) : m.FairOnDice tokens := by
  intro failure hblamed
  rw [h] at hblamed
  cases hblamed

end Mistake

namespace FairOnDice

theorem nil : FairOnDice tokens [] := nofun

theorem append (h : FairOnDice tokens noted) (h' : FairOnDice tokens new) :
    FairOnDice tokens (noted ++ new) := by
  intro message hmem
  rcases List.mem_append.1 hmem with hmem | hmem
  · exact h message hmem
  · exact h' message hmem

/-- The text of a mistake stands in front of the tokens around it. What is said of dice begins no
other message. -/
theorem message {m : Mistake} (hm : m.FairOnDice tokens) (window : String) :
    FairOnDice tokens [m.message window] := by
  intro message hmem blamed hfront failure hblamed
  rw [List.mem_singleton.1 hmem] at hfront
  obtain ⟨back, hback⟩ := Mistake.message_parts m window
  rw [hback] at hfront
  have hsame : m = blamed := Mistake.eq_of_blamed hblamed hfront
  exact hm failure (hsame ▸ hblamed)

end FairOnDice

namespace Kept

theorem nil : Kept source tokens [] [] := ⟨.slnil, fun h => absurd rfl h, nofun, nofun⟩

theorem append (hx : Kept source tokens noted xs) (hy : Kept source tokens new ys) :
    Kept source tokens (noted ++ new) (xs ++ ys) where
  messages_sublist := by
    rw [messages_append]
    exact hx.messages_sublist.append hy.messages_sublist
  messages_ne_nil := by
    intro hne
    rw [messages_append, ne_eq, List.append_eq_nil_iff]
    rintro ⟨hxs, hys⟩
    refine hne (List.append_eq_nil_iff.2 ⟨?_, ?_⟩)
    · exact not_ne_iff.1 fun h => hx.messages_ne_nil h hxs
    · exact not_ne_iff.1 fun h => hy.messages_ne_nil h hys
  functions := by
    intro params body hmem
    rcases List.mem_append.1 hmem with hmem | hmem
    · exact hx.functions params body hmem
    · exact hy.functions params body hmem
  dice := by
    intro spec hmem
    rcases List.mem_append.1 hmem with hmem | hmem
    · exact hx.dice spec hmem
    · exact hy.dice spec hmem

/-- A node that tells nothing may stand on top. -/
theorem under (he : e.tellsNothing = true) (h : Kept source tokens noted nodes) :
    Kept source tokens noted (e :: nodes) := by
  have hmessages : messages (e :: nodes) = messages nodes := by
    cases e <;> first | rfl | cases he
  refine ⟨hmessages ▸ h.messages_sublist, hmessages ▸ h.messages_ne_nil,
    fun params body hmem => ?_, fun spec hmem => ?_⟩
  · rcases List.mem_cons.1 hmem with rfl | hmem
    · cases he
    · exact h.functions params body hmem
  · rcases List.mem_cons.1 hmem with rfl | hmem
    · cases he
    · exact h.dice spec hmem

/-- Where nothing was noted, a node that tells nothing says so. -/
theorem alone (he : e.tellsNothing = true) : Kept source tokens [] [e] := nil.under he

/-- The node of one mistake stands for all that were noted with it. -/
theorem error {message : String} (h : message ∈ noted) :
    Kept source tokens noted [.error message] :=
  ⟨List.singleton_sublist.2 h, fun _ => List.cons_ne_nil _ _, by simp, by simp⟩

theorem function {params : List String} {body : String} (h : CutOut source tokens params body) :
    Kept source tokens [] [.function params body] := by
  refine ⟨.slnil, fun hne => absurd rfl hne, fun params' body' hmem => ?_, by simp⟩
  cases List.mem_singleton.1 hmem
  exact h

theorem diceLeaf {spec : DiceSpec} (h : DiceAmong tokens (.ok spec)) :
    Kept source tokens [] [.dice spec] := by
  refine ⟨.slnil, fun hne => absurd rfl hne, by simp, fun spec' hmem => ?_⟩
  cases List.mem_singleton.1 hmem
  exact h

/-- Nothing is told by no node only if nothing was noted. -/
theorem noted_eq_nil (h : Kept source tokens noted []) : noted = [] :=
  not_ne_iff.1 fun hne => h.messages_ne_nil hne rfl

end Kept

/-! ## Readers that keep what they note -/

open Reader

variable {α β : Type} {shown : α → List Expr} {shown' : β → List Expr}

variable (source tokens) in
/-- After `noted`, a reader gives nodes that tell both what was noted before and what it notes. It
stays among the tokens, and is fair on dice. -/
def Accounts (noted : List String) (x : Reader α) (shown : α → List Expr) : Prop :=
  ∀ s p a q, s.source = source → p.cursor.Within tokens → outcome x s p = some (a, q) →
    q.cursor.Within tokens ∧ ∃ new, q.mistakes = p.mistakes ++ new ∧ FairOnDice tokens new ∧
      Kept source tokens (noted ++ new) (shown a)

variable (source tokens) in
/-- So does an attempt that is completed. One that is given up gives the node of a mistake that was
noted. -/
def AccountsTrying (noted : List String) (x : Attempt α) (shown : α → List Expr) : Prop :=
  ∀ s p r q, s.source = source → p.cursor.Within tokens → outcome x.run s p = some (r, q) →
    q.cursor.Within tokens ∧ ∃ new, q.mistakes = p.mistakes ++ new ∧ FairOnDice tokens new ∧
      (∀ a, r = .ok a → Kept source tokens (noted ++ new) (shown a)) ∧
      ∀ node, r = .error node → ∃ message ∈ noted ++ new, node = .error message

namespace Accounts

theorem pure {a : α} (h : Kept source tokens noted (shown a)) :
    Accounts source tokens noted (Pure.pure a) shown := by
  intro s p b q _ hp hx
  cases hx
  exact ⟨hp, [], (List.append_nil _).symm, .nil, by rwa [List.append_nil]⟩

theorem bind {x : Reader α} {f : α → Reader β} (hx : Accounts source tokens [] x shown)
    (hf : ∀ a new, Kept source tokens new (shown a) →
      Accounts source tokens (noted ++ new) (f a) shown') :
    Accounts source tokens noted (x >>= f) shown' := by
  intro s p b t hs hp hxf
  rw [Reader.outcome_bind] at hxf
  obtain ⟨⟨a, q⟩, hxa, hfa⟩ := Option.bind_eq_some_iff.1 hxf
  obtain ⟨hq, new, hmistakes, hfair, hkept⟩ := hx s p a q hs hp hxa
  obtain ⟨ht, new', hmistakes', hfair', hkept'⟩ := hf a new hkept s q b t hs hq hfa
  refine ⟨ht, new ++ new', ?_, hfair.append hfair', ?_⟩
  · rw [hmistakes', hmistakes, List.append_assoc]
  · rwa [List.append_assoc] at hkept'

/-- What a reader was given before may stand in what it gives. -/
theorem andThen {x : Reader α} {f : α → Reader β} (hx : Accounts source tokens noted x shown)
    (hf : ∀ a all, Kept source tokens all (shown a) → Accounts source tokens all (f a) shown') :
    Accounts source tokens noted (x >>= f) shown' := by
  intro s p b t hs hp hxf
  rw [Reader.outcome_bind] at hxf
  obtain ⟨⟨a, q⟩, hxa, hfa⟩ := Option.bind_eq_some_iff.1 hxf
  obtain ⟨hq, new, hmistakes, hfair, hkept⟩ := hx s p a q hs hp hxa
  obtain ⟨ht, new', hmistakes', hfair', hkept'⟩ := hf a (noted ++ new) hkept s q b t hs hq hfa
  refine ⟨ht, new ++ new', ?_, hfair.append hfair', ?_⟩
  · rw [hmistakes', hmistakes, List.append_assoc]
  · rwa [List.append_assoc] at hkept'

theorem here_bind {f : Cursor → Reader α}
    (h : ∀ c : Cursor, c.Within tokens → Accounts source tokens noted (f c) shown) :
    Accounts source tokens noted (here >>= f) shown :=
  fun s p a q hs hp hx => h p.cursor hp s p a q hs hp hx

theorem peek_bind {f : TokenKind → Reader α}
    (h : ∀ kind, Accounts source tokens noted (f kind) shown) :
    Accounts source tokens noted (peek >>= f) shown :=
  fun s p a q hs hp hx => h p.cursor.kind s p a q hs hp hx

theorem remaining_bind {f : Nat → Reader α}
    (h : ∀ n, Accounts source tokens noted (f n) shown) :
    Accounts source tokens noted (remaining >>= f) shown :=
  fun s p a q hs hp hx => h p.remaining s p a q hs hp hx

theorem setting_bind {f : Setting → Reader α}
    (h : ∀ s : Setting, s.source = source → Accounts source tokens noted (f s) shown) :
    Accounts source tokens noted (readThe Setting >>= f) shown :=
  fun s p a q hs hp hx => h s hs s p a q hs hp hx

theorem moveTo_bind {c : Cursor} {f : Unit → Reader α} (hc : c.Within tokens)
    (h : Accounts source tokens noted (f ()) shown) :
    Accounts source tokens noted (moveTo c >>= f) shown :=
  fun s p a q hs _ hx => h s { p with cursor := c } a q hs hc hx

theorem advance_bind {f : Unit → Reader α} (h : Accounts source tokens noted (f ()) shown) :
    Accounts source tokens noted (advance >>= f) shown :=
  fun s p a q hs hp hx => h s p.advanced a q hs (hp.ahead (Cursor.ahead_advance _)) hx

theorem mistakeAt (c : Cursor) (m : Mistake) (hm : m.FairOnDice tokens) :
    Accounts source tokens noted (mistakeAt c m) Expr.nodes := by
  intro s p e q _ hp hx
  cases hx
  exact ⟨hp, [m.message c.window], rfl, .message hm c.window,
    .error (List.mem_append_right _ (List.mem_singleton_self _))⟩

theorem withPairs {x : Reader Expr} (h : Accounts source tokens noted x Expr.nodes) :
    Accounts source tokens noted (withPairs x) Expr.nodes :=
  fun s p a q hs hp hx => h { s with pairs := true } p a q hs hp hx

theorem withoutPairs {x : Reader Expr} (h : Accounts source tokens noted x Expr.nodes) :
    Accounts source tokens noted (withoutPairs x) Expr.nodes :=
  fun s p a q hs hp hx => h { s with pairs := false } p a q hs hp hx

theorem consumeIf_bind {kind : TokenKind} {f : Bool → Reader α}
    (h : ∀ found, Accounts source tokens noted (f found) shown) :
    Accounts source tokens noted (consumeIf kind >>= f) shown := by
  intro s p a q hs hp hx
  rw [Reader.outcome_bind, outcome_consumeIf] at hx
  split at hx
  · exact h true s p.advanced a q hs (hp.ahead (Cursor.ahead_advance _)) hx
  · exact h false s p a q hs hp hx

theorem settle {x : Attempt Expr} (h : AccountsTrying source tokens noted x Expr.nodes) :
    Accounts source tokens noted (settle x) Expr.nodes := by
  intro s p e q hs hp hx
  rw [outcome_settle] at hx
  obtain ⟨⟨r, t⟩, hr, heq⟩ := Option.bind_eq_some_iff.1 hx
  obtain ⟨ht, new, hmistakes, hfair, hok, herror⟩ := h s p r t hs hp hr
  cases r with
  | ok a =>
    cases heq
    exact ⟨ht, new, hmistakes, hfair, hok _ rfl⟩
  | error node =>
    cases heq
    obtain ⟨message, hmem, rfl⟩ := herror _ rfl
    exact ⟨ht, new, hmistakes, hfair, .error hmem⟩

end Accounts

namespace AccountsTrying

theorem pure {a : α} (h : Kept source tokens noted (shown a)) :
    AccountsTrying source tokens noted (Pure.pure a) shown := by
  intro s p r q _ hp hx
  cases hx
  refine ⟨hp, [], (List.append_nil _).symm, .nil, fun b hb => ?_, nofun⟩
  cases hb
  rwa [List.append_nil]

theorem bind {x : Attempt α} {f : α → Attempt β} (hx : AccountsTrying source tokens [] x shown)
    (hf : ∀ a new, Kept source tokens new (shown a) →
      AccountsTrying source tokens (noted ++ new) (f a) shown') :
    AccountsTrying source tokens noted (x >>= f) shown' := by
  intro s p r t hs hp hxf
  rw [Attempt.outcome_bind] at hxf
  obtain ⟨⟨o, q⟩, hxa, hfa⟩ := Option.bind_eq_some_iff.1 hxf
  obtain ⟨hq, new, hmistakes, hfair, hok, herror⟩ := hx s p o q hs hp hxa
  cases o with
  | ok a =>
    obtain ⟨ht, new', hmistakes', hfair', hafter⟩ := hf a new (hok a rfl) s q r t hs hq hfa
    refine ⟨ht, new ++ new', ?_, hfair.append hfair', ?_⟩
    · rw [hmistakes', hmistakes, List.append_assoc]
    · rwa [List.append_assoc] at hafter
  | error node =>
    cases hfa
    obtain ⟨message, hmem, rfl⟩ := herror node rfl
    refine ⟨hq, new, hmistakes, hfair, nofun, fun node hnode => ?_⟩
    cases hnode
    exact ⟨message, List.mem_append_right _ hmem, rfl⟩

theorem andThen {x : Attempt α} {f : α → Attempt β}
    (hx : AccountsTrying source tokens noted x shown)
    (hf : ∀ a all, Kept source tokens all (shown a) →
      AccountsTrying source tokens all (f a) shown') :
    AccountsTrying source tokens noted (x >>= f) shown' := by
  intro s p r t hs hp hxf
  rw [Attempt.outcome_bind] at hxf
  obtain ⟨⟨o, q⟩, hxa, hfa⟩ := Option.bind_eq_some_iff.1 hxf
  obtain ⟨hq, new, hmistakes, hfair, hok, herror⟩ := hx s p o q hs hp hxa
  cases o with
  | ok a =>
    obtain ⟨ht, new', hmistakes', hfair', hafter⟩ :=
      hf a (noted ++ new) (hok a rfl) s q r t hs hq hfa
    refine ⟨ht, new ++ new', ?_, hfair.append hfair', ?_⟩
    · rw [hmistakes', hmistakes, List.append_assoc]
    · rwa [List.append_assoc] at hafter
  | error node =>
    cases hfa
    refine ⟨hq, new, hmistakes, hfair, nofun, fun node' hnode => ?_⟩
    cases hnode
    exact herror node rfl

theorem lift_bind {x : Reader α} {f : α → Attempt β} (hx : Accounts source tokens [] x shown)
    (hf : ∀ a new, Kept source tokens new (shown a) →
      AccountsTrying source tokens (noted ++ new) (f a) shown') :
    AccountsTrying source tokens noted (liftM x >>= f) shown' := by
  have hlift : AccountsTrying source tokens [] (liftM x) shown := by
    intro s p r q hs hp hxa
    rw [Attempt.outcome_lift] at hxa
    obtain ⟨⟨a, t⟩, ha, heq⟩ := Option.bind_eq_some_iff.1 hxa
    cases heq
    obtain ⟨hq, new, hmistakes, hfair, hkept⟩ := hx s p a t hs hp ha
    refine ⟨hq, new, hmistakes, hfair, fun b hb => ?_, nofun⟩
    cases hb
    exact hkept
  exact .bind hlift hf

theorem lift_here_bind {f : Cursor → Attempt α}
    (h : ∀ c : Cursor, c.Within tokens → AccountsTrying source tokens noted (f c) shown) :
    AccountsTrying source tokens noted (liftM here >>= f) shown :=
  fun s p r q hs hp hx => h p.cursor hp s p r q hs hp hx

theorem lift_peek_bind {f : TokenKind → Attempt α}
    (h : ∀ kind, AccountsTrying source tokens noted (f kind) shown) :
    AccountsTrying source tokens noted (liftM peek >>= f) shown :=
  fun s p r q hs hp hx => h p.cursor.kind s p r q hs hp hx

theorem lift_remaining_bind {f : Nat → Attempt α}
    (h : ∀ n, AccountsTrying source tokens noted (f n) shown) :
    AccountsTrying source tokens noted (liftM remaining >>= f) shown :=
  fun s p r q hs hp hx => h p.remaining s p r q hs hp hx

theorem lift_setting_bind {f : Setting → Attempt α}
    (h : ∀ s : Setting, s.source = source → AccountsTrying source tokens noted (f s) shown) :
    AccountsTrying source tokens noted (liftM (readThe Setting : Reader Setting) >>= f) shown :=
  fun s p r q hs hp hx => h s hs s p r q hs hp hx

theorem lift_moveTo_bind {c : Cursor} {f : Unit → Attempt α} (hc : c.Within tokens)
    (h : AccountsTrying source tokens noted (f ()) shown) :
    AccountsTrying source tokens noted (liftM (moveTo c) >>= f) shown :=
  fun s p r q hs _ hx => h s { p with cursor := c } r q hs hc hx

theorem lift_advance_bind {f : Unit → Attempt α}
    (h : AccountsTrying source tokens noted (f ()) shown) :
    AccountsTrying source tokens noted (liftM advance >>= f) shown :=
  fun s p r q hs hp hx => h s p.advanced r q hs (hp.ahead (Cursor.ahead_advance _)) hx

theorem lift_consumeIf_bind {kind : TokenKind} {f : Bool → Attempt α}
    (h : ∀ found, AccountsTrying source tokens noted (f found) shown) :
    AccountsTrying source tokens noted (liftM (consumeIf kind) >>= f) shown := by
  unfold AccountsTrying
  rw [Attempt.run_lift_bind]
  intro s p r q hs hp hx
  rw [Reader.outcome_bind, outcome_consumeIf] at hx
  split at hx
  · exact h true s p.advanced r q hs (hp.ahead (Cursor.ahead_advance _)) hx
  · exact h false s p r q hs hp hx

theorem failAt (c : Cursor) (m : Mistake) (hm : m.FairOnDice tokens) :
    AccountsTrying source tokens noted (Attempt.failAt c m : Attempt α) shown := by
  intro s p r q _ hp hx
  cases hx
  refine ⟨hp, [m.message c.window], rfl, .message hm c.window, nofun, fun node hnode => ?_⟩
  cases hnode
  exact ⟨_, List.mem_append_right _ (List.mem_singleton_self _), rfl⟩

theorem fail (m : Mistake) (hm : m.FairOnDice tokens) :
    AccountsTrying source tokens noted (Attempt.fail m : Attempt α) shown :=
  .lift_here_bind fun c _ => .failAt c m hm

theorem expect_bind {kind : TokenKind} {place : Place} {f : Unit → Attempt α}
    (h : AccountsTrying source tokens noted (f ()) shown) :
    AccountsTrying source tokens noted (Attempt.expect kind place >>= f) shown := by
  have hexpect : AccountsTrying source tokens [] (Attempt.expect kind place) fun _ => [] := by
    refine .lift_consumeIf_bind fun found => ?_
    cases found with
    | true => exact .pure .nil
    | false => exact .fail _ (.of_blamed rfl)
  refine .bind hexpect fun _ new hnew => ?_
  rwa [hnew.noted_eq_nil, List.append_nil]

end AccountsTrying

end DiceScript
