import DiceScript.Proofs.Grammar.Inset

/-!
Readers that mirror each other: one on the tokens of a text, the other on the same tokens inside a
larger text. What the first reads without noting a mistake, the second reads too. What must hold
where the first begins, and what then holds where it ends, is a condition in front and one behind; a
reader that follows begins where the condition behind holds. Along the way mistakes are only added
to.
-/

namespace DiceScript

open Reader Cursor

variable {α β : Type}

theorem Attempt.run_lift_bind (x : Reader α) (f : α → Attempt β) :
    (liftM x >>= f).run = x >>= fun a => (f a).run := by
  funext s p
  show outcome (liftM x >>= f).run s p = outcome (x >>= fun a => (f a).run) s p
  rw [Attempt.outcome_bind, Attempt.outcome_lift, Reader.outcome_bind]
  cases outcome x s p <;> rfl

namespace Inset

variable (i : Inset)

/-- Between the two, no mistake was noted. -/
def Clean (p q : Progress) : Prop := q.mistakes.length = p.mistakes.length

/-- What a reader in the text came to is as it should be, and it is what comes of a reader in the
larger text. -/
structure Reached (post : α → Progress → Prop) (whole : Option (α × Progress)) (p' : Progress)
    (a : α) (q : Progress) : Prop where
  holds : post a q
  arrived : i.Arrived q.cursor
  mirrored : ∃ q', whole = some (a, q') ∧ i.Beside q.cursor q'.cursor ∧ q'.mistakes = p'.mistakes

/-- A reader in the text only adds to the mistakes. If it begins where `pre` holds, adds none and
comes to where `guard` holds, then `post` holds there and a reader in the larger text comes to the
same. -/
structure Mirrors (pre guard : Progress → Prop) (post : α → Progress → Prop) (x y : Reader α) :
    Prop where
  grows {pairs : Bool} {p q : Progress} {a : α} :
    outcome x ⟨i.own, pairs⟩ p = some (a, q) → p.mistakes.length ≤ q.mistakes.length
  reached {pairs : Bool} {p p' q : Progress} {a : α} :
    i.Arrived p.cursor → i.Beside p.cursor p'.cursor → pre p →
    outcome x ⟨i.own, pairs⟩ p = some (a, q) → Clean p q → guard q →
    i.Reached post (outcome y ⟨i.whole, pairs⟩ p') p' a q

/-- The same of attempts. An attempt that ends early has noted a mistake. -/
def MirrorsTry (pre guard : Progress → Prop) (post : α → Progress → Prop) (x y : Attempt α) :
    Prop :=
  i.Mirrors pre guard (fun r q => ∃ a, r = .ok a ∧ post a q) x.run y.run

/-- No condition. -/
def Always (_ : Progress) : Prop := True

/-- A kind that is neither the end nor a semicolon, and that begins no body of a function. -/
def Telling (kind : TokenKind) : Prop :=
  kind ≠ .finish ∧ kind ≠ .semicolon ∧ kind ≠ .openCurly

instance (kind : TokenKind) : Decidable (Telling kind) := inferInstanceAs (Decidable (_ ∧ _ ∧ _))

/-- Behind a token of a kind, if that was passed from where `pre` held, and otherwise still
there. -/
def Consumed (kind : TokenKind) (pre : Progress → Prop) : Bool → Progress → Prop
  | true, q => ∃ p, pre p ∧ p.cursor.kind = kind ∧ q.cursor = p.cursor.advance
  | false, q => pre q

theorem Consumed.behind {kind : TokenKind} {pre : Progress → Prop} {q : Progress}
    (h : Consumed kind pre true q) (hkind : kind ≠ .finish) : q.cursor.Behind kind := by
  obtain ⟨p, -, hp, hq⟩ := h
  rw [hq]
  exact Cursor.behind_advance hp hkind

theorem Consumed.ends {kind : TokenKind} {pre : Progress → Prop} {q : Progress}
    (h : Consumed kind pre true q) (hkind : Cursor.closesOperand kind = true) :
    q.cursor.EndsOperand :=
  (h.behind (by rintro rfl; cases hkind)).endsOperand hkind

theorem Consumed.begins {kind : TokenKind} {pre : Progress → Prop} {q : Progress}
    (h : Consumed kind pre true q) (hkind : Cursor.opensConditional kind = true) :
    q.cursor.BeginsConditional :=
  (h.behind (by rintro rfl; cases hkind)).beginsConditional hkind

variable {i} {pre pre' guard guard' : Progress → Prop} {post post' : α → Progress → Prop}

namespace Mirrors

variable {x y : Reader α}

theorem mono (h : i.Mirrors pre guard post x y) (hpre : ∀ p, pre' p → pre p)
    (hguard : ∀ p, guard' p → guard p) (hpost : ∀ a p, guard' p → post a p → post' a p) :
    i.Mirrors pre' guard' post' x y where
  grows := h.grows
  reached harrived hbeside hp hx hclean hq := by
    obtain ⟨hholds, harrived', hmirrored⟩ := h.reached harrived hbeside (hpre _ hp) hx hclean
      (hguard _ hq)
    exact ⟨hpost _ _ hq hholds, harrived', hmirrored⟩

theorem of_pre (h : i.Mirrors pre guard post x y) (hpre : ∀ p, pre' p → pre p) :
    i.Mirrors pre' guard post x y :=
  h.mono hpre (fun _ hq => hq) fun _ _ _ ha => ha

theorem of_post (h : i.Mirrors pre guard post x y) (hpost : ∀ a p, post a p → post' a p) :
    i.Mirrors pre guard post' x y :=
  h.mono (fun _ hp => hp) (fun _ hq => hq) fun a p _ => hpost a p

/-- Where the reader begins, another one may take the place of the second. -/
theorem congr_right {y' : Reader α} (h : i.Mirrors pre guard post x y)
    (hy : ∀ p, i.Arrived p.cursor → pre p → y' = y) : i.Mirrors pre guard post x y' where
  grows := h.grows
  reached harrived hbeside hp hx hclean hq := by
    rw [hy _ harrived hp]
    exact h.reached harrived hbeside hp hx hclean hq

/-- A reader that never comes to where `guard` holds without noting a mistake mirrors anything. -/
theorem of_never (hgrows : ∀ s p a q, outcome x s p = some (a, q) →
      p.mistakes.length ≤ q.mistakes.length)
    (hnever : ∀ s p a q, pre p → outcome x s p = some (a, q) → Clean p q → ¬ guard q) :
    i.Mirrors pre guard post x y where
  grows hx := hgrows _ _ _ _ hx
  reached _ _ hp hx hclean hq := absurd hq (hnever _ _ _ _ hp hx hclean)

/-- A reader that always notes a mistake mirrors anything. -/
theorem of_noting (h : ∀ s p a q, outcome x s p = some (a, q) →
      p.mistakes.length < q.mistakes.length) : i.Mirrors pre guard post x y := by
  refine of_never (fun s p a q hx => Nat.le_of_lt (h s p a q hx)) fun s p a q _ hx hclean => ?_
  exact absurd hclean (Nat.ne_of_gt (h s p a q hx))

theorem pure {a : α} (h : ∀ p, pre p → guard p → post a p) :
    i.Mirrors pre guard post (Pure.pure a) (Pure.pure a) where
  grows hx := by
    cases hx
    exact Nat.le_refl _
  reached harrived hbeside hp hx _ hq := by
    cases hx
    exact ⟨h _ hp hq, harrived, _, rfl, hbeside, rfl⟩

/-- One reader after another. What the first is guarded by has to follow from the second coming to
an end without a mistake. -/
theorem bind_of {f g : α → Reader β} {next : β → Progress → Prop} {between : Progress → Prop}
    (hx : i.Mirrors pre between post x y)
    (hbetween : ∀ a s q b r, outcome (f a) s q = some (b, r) → Clean q r → guard r → between q)
    (hf : ∀ a, i.Mirrors (post a) guard next (f a) (g a)) :
    i.Mirrors pre guard next (x >>= f) (y >>= g) where
  grows hxf := by
    rw [outcome_bind] at hxf
    obtain ⟨⟨a, q⟩, hxa, hfa⟩ := Option.bind_eq_some_iff.1 hxf
    exact Nat.le_trans (hx.grows hxa) ((hf a).grows hfa)
  reached {pairs p p' r b} harrived hbeside hp hxf hclean hr := by
    rw [outcome_bind] at hxf
    obtain ⟨⟨a, q⟩, hxa, hfa⟩ := Option.bind_eq_some_iff.1 hxf
    have hgrows : p.mistakes.length ≤ q.mistakes.length := hx.grows hxa
    have hgrows' : q.mistakes.length ≤ r.mistakes.length := (hf a).grows hfa
    have hfirst : Clean p q := by unfold Clean at *; omega
    have hsecond : Clean q r := by unfold Clean at *; omega
    obtain ⟨hholds, harrived', q', hy, hbeside', hmistakes⟩ :=
      hx.reached harrived hbeside hp hxa hfirst (hbetween a _ q b r hfa hsecond hr)
    obtain ⟨hholds', harrived'', r', hg, hbeside'', hmistakes'⟩ :=
      (hf a).reached harrived' hbeside' hholds hfa hsecond hr
    refine ⟨hholds', harrived'', r', ?_, hbeside'', hmistakes'.trans hmistakes⟩
    rw [outcome_bind, hy]
    exact hg

theorem bind {f g : α → Reader β} {next : β → Progress → Prop} (hx : i.Mirrors pre Always post x y)
    (hf : ∀ a, i.Mirrors (post a) guard next (f a) (g a)) :
    i.Mirrors pre guard next (x >>= f) (y >>= g) :=
  hx.bind_of (fun _ _ _ _ _ _ _ _ => trivial) hf

/-! ## Looking -/

theorem here_bind {f g : Cursor → Reader α}
    (h : ∀ c c', i.Beside c c' →
      i.Mirrors (fun p => pre p ∧ p.cursor = c) guard post (f c) (g c')) :
    i.Mirrors pre guard post (here >>= f) (here >>= g) where
  grows {_ p _ _} hx := (h p.cursor ⟨[], _⟩ ⟨rfl⟩).grows hx
  reached {_ p p' _ _} harrived hbeside hp hx :=
    (h p.cursor p'.cursor hbeside).reached harrived hbeside ⟨hp, rfl⟩ hx

/-- At the end of the text the larger text may go on with a semicolon. -/
theorem peek_bind {f g : TokenKind → Reader α}
    (h : ∀ kind, i.Mirrors (fun p => pre p ∧ p.cursor.kind = kind) guard post (f kind) (g kind))
    (hend : i.Mirrors (fun p => pre p ∧ p.cursor.rest = []) guard post (f .finish)
      (g .semicolon)) :
    i.Mirrors pre guard post (peek >>= f) (peek >>= g) where
  grows {_ p _ _} hx := (h p.cursor.kind).grows hx
  reached {pairs p p' q a} harrived hbeside hp hx hclean hq := by
    have hx' : outcome (f p.cursor.kind) ⟨i.own, pairs⟩ p = some (a, q) := hx
    show i.Reached post (outcome (g p'.cursor.kind) ⟨i.whole, pairs⟩ p') p' a q
    rcases hbeside.kind_eq_or with hkind | ⟨hnil, hkind⟩
    · rw [hkind]
      exact (h p.cursor.kind).reached harrived hbeside ⟨hp, rfl⟩ hx' hclean hq
    · have hfinish : p.cursor.kind = .finish := by rw [Cursor.kind_eq, hnil]; rfl
      rw [hfinish] at hx'
      rw [hkind]
      exact hend.reached harrived hbeside ⟨hp, hnil⟩ hx' hclean hq

/-- The larger text has at least as many tokens ahead. -/
theorem remaining_bind {f g : Nat → Reader α}
    (h : ∀ n n', n ≤ n' → i.Mirrors pre guard post (f n) (g n')) :
    i.Mirrors pre guard post (remaining >>= f) (remaining >>= g) where
  grows {_ p _ _} hx := (h p.remaining p.remaining (Nat.le_refl _)).grows hx
  reached {_ p p' _ _} harrived hbeside hp hx := by
    refine (h p.remaining p'.remaining ?_).reached harrived hbeside hp hx
    show p.cursor.rest.length ≤ p'.cursor.rest.length
    rw [hbeside.rest, List.length_append, List.length_map]
    exact Nat.le_add_right _ _

theorem setting_bind {f g : Setting → Reader α}
    (h : ∀ pairs, i.Mirrors pre guard post (f ⟨i.own, pairs⟩) (g ⟨i.whole, pairs⟩)) :
    i.Mirrors pre guard post (readThe Setting >>= f) (readThe Setting >>= g) where
  grows {pairs _ _ _} hx := (h pairs).grows hx
  reached {pairs _ _ _ _} harrived hbeside hp hx := (h pairs).reached harrived hbeside hp hx

theorem withPairs {x y : Reader Expr} {post : Expr → Progress → Prop}
    (h : i.Mirrors pre guard post x y) :
    i.Mirrors pre guard post (Reader.withPairs x) (Reader.withPairs y) where
  grows hx := h.grows hx
  reached harrived hbeside hp hx := h.reached harrived hbeside hp hx

theorem withoutPairs {x y : Reader Expr} {post : Expr → Progress → Prop}
    (h : i.Mirrors pre guard post x y) :
    i.Mirrors pre guard post (Reader.withoutPairs x) (Reader.withoutPairs y) where
  grows hx := h.grows hx
  reached harrived hbeside hp hx := h.reached harrived hbeside hp hx

/-! ## Moving -/

/-- Where the cursors that are moved to have arrived and stand beside each other, a reader that
follows may begin. -/
theorem moveTo {c c' : Cursor} (reached : Cursor → Prop)
    (h : ∀ p, i.Arrived p.cursor → pre p → i.Arrived c ∧ i.Beside c c' ∧ reached c) :
    i.Mirrors pre guard (fun _ q => reached q.cursor) (Reader.moveTo c) (Reader.moveTo c') where
  grows hx := by
    cases hx
    exact Nat.le_refl _
  reached harrived _ hp hx _ _ := by
    cases hx
    obtain ⟨hc, hbeside, hreached⟩ := h _ harrived hp
    exact ⟨hreached, hc, _, rfl, hbeside, rfl⟩

theorem advance {kind : TokenKind} (hpre : ∀ p, pre p → p.cursor.kind = kind)
    (hfinish : kind ≠ .finish)
    (hbody : kind ≠ .openCurly ∨ ∀ p, pre p → ¬ p.cursor.Behind .arrow) :
    i.Mirrors pre guard (fun _ => Consumed kind pre true) Reader.advance Reader.advance where
  grows hx := by
    cases hx
    exact Nat.le_refl _
  reached {_ p p' _ _} harrived hbeside hp hx _ _ := by
    cases hx
    have hkind := hpre p hp
    refine ⟨⟨p, hp, hkind, rfl⟩, Cursor.advance_outside harrived ?_, p'.advanced, rfl,
      hbeside.advance (Cursor.rest_ne_nil_of_kind hkind hfinish), rfl⟩
    rw [hkind]
    exact hbody.imp_right fun harrow => harrow p hp

/-- A token that does not begin the body of a function is passed. -/
theorem advance_bind {kind : TokenKind} {f g : Unit → Reader α}
    (hpre : ∀ p, pre p → p.cursor.kind = kind) (hkind : kind ≠ .finish ∧ kind ≠ .openCurly)
    (hnext : i.Mirrors (Consumed kind pre true) guard post (f ()) (g ())) :
    i.Mirrors pre guard post (Reader.advance >>= f) (Reader.advance >>= g) :=
  (Mirrors.advance hpre hkind.1 (.inl hkind.2)).bind fun _ => hnext

theorem consumeIf_of {kind : TokenKind} (hkind : kind ≠ .finish ∧ kind ≠ .semicolon)
    (hbody : kind ≠ .openCurly ∨ ∀ p, pre p → ¬ p.cursor.Behind .arrow) :
    i.Mirrors pre guard (Consumed kind pre) (Reader.consumeIf kind) (Reader.consumeIf kind) := by
  obtain ⟨hfinish, hsemicolon⟩ := hkind
  refine .peek_bind (fun k => ?_) ?_
  · by_cases hk : k = kind
    · rw [if_pos hk]
      refine (Mirrors.advance (fun p hp => hp.2.trans hk) hfinish ?_).bind fun _ => .pure ?_
      · exact hbody.imp_right fun harrow p hp => harrow p hp.1
      · rintro q ⟨p, ⟨hp, -⟩, hpk, hq⟩ -
        exact ⟨p, hp, hpk, hq⟩
    · rw [if_neg hk]
      exact .pure fun _ hp _ => hp.1
  · rw [if_neg hfinish.symm, if_neg hsemicolon.symm]
    exact .pure fun _ hp _ => hp.1

theorem consumeIf {kind : TokenKind} (hkind : Telling kind) :
    i.Mirrors pre guard (Consumed kind pre) (Reader.consumeIf kind) (Reader.consumeIf kind) :=
  .consumeIf_of ⟨hkind.1, hkind.2.1⟩ (.inl hkind.2.2)

/-! ## Mistakes -/

theorem mistakeAt {post : Expr → Progress → Prop} (c : Cursor) (m : Mistake) {y : Reader Expr} :
    i.Mirrors pre guard post (Reader.mistakeAt c m) y := by
  refine of_noting fun s p a q hx => ?_
  cases hx
  simp

/-- Whatever token is passed, a mistake is noted behind it. -/
theorem advance_mistakeAt {post : Expr → Progress → Prop} (c : Cursor) (m : Mistake)
    {y : Reader Expr} :
    i.Mirrors pre guard post (Reader.advance >>= fun _ => Reader.mistakeAt c m) y := by
  refine of_noting fun s p a q hx => ?_
  cases hx
  simp

end Mirrors

/-! ## Attempts -/

namespace MirrorsTry

variable {x y : Attempt α} {f g : α → Attempt β} {next : β → Progress → Prop}

theorem of_pre (h : i.MirrorsTry pre guard post x y) (hpre : ∀ p, pre' p → pre p) :
    i.MirrorsTry pre' guard post x y :=
  Mirrors.of_pre h hpre

theorem pure {a : α} (h : ∀ p, pre p → guard p → post a p) :
    i.MirrorsTry pre guard post (Pure.pure a) (Pure.pure a) := by
  show i.Mirrors pre guard _ (Pure.pure (Except.ok a)) (Pure.pure (Except.ok a))
  exact .pure fun p hp hq => ⟨a, rfl, h p hp hq⟩

theorem bind (hx : i.MirrorsTry pre Always post x y)
    (hf : ∀ a, i.MirrorsTry (post a) guard next (f a) (g a)) :
    i.MirrorsTry pre guard next (x >>= f) (y >>= g) := by
  show i.Mirrors pre guard _ (x.run >>= fun r => ExceptT.bindCont f r)
    (y.run >>= fun r => ExceptT.bindCont g r)
  refine Mirrors.bind hx fun r => ?_
  cases r with
  | ok a =>
    refine Mirrors.of_pre (hf a) fun q hq => ?_
    obtain ⟨b, hb, hpost⟩ := hq
    cases hb
    exact hpost
  -- an attempt that ended early is not without a mistake
  | error node =>
    refine Mirrors.pure fun q hq => ?_
    obtain ⟨b, hb, -⟩ := hq
    cases hb

theorem lift_bind_of {x y : Reader α} {between : Progress → Prop}
    (hx : i.Mirrors pre between post x y)
    (hbetween : ∀ a s q b r, outcome (f a).run s q = some (b, r) → Clean q r → guard r → between q)
    (hf : ∀ a, i.MirrorsTry (post a) guard next (f a) (g a)) :
    i.MirrorsTry pre guard next (liftM x >>= f) (liftM y >>= g) := by
  unfold MirrorsTry
  rw [Attempt.run_lift_bind, Attempt.run_lift_bind]
  exact hx.bind_of hbetween hf

theorem lift_bind {x y : Reader α} (hx : i.Mirrors pre Always post x y)
    (hf : ∀ a, i.MirrorsTry (post a) guard next (f a) (g a)) :
    i.MirrorsTry pre guard next (liftM x >>= f) (liftM y >>= g) :=
  .lift_bind_of hx (fun _ _ _ _ _ _ _ _ => trivial) hf

theorem lift_here_bind {f g : Cursor → Attempt α}
    (h : ∀ c c', i.Beside c c' →
      i.MirrorsTry (fun p => pre p ∧ p.cursor = c) guard post (f c) (g c')) :
    i.MirrorsTry pre guard post (liftM here >>= f) (liftM here >>= g) :=
  Mirrors.here_bind h

theorem lift_peek_bind {f g : TokenKind → Attempt α}
    (h : ∀ kind, i.MirrorsTry (fun p => pre p ∧ p.cursor.kind = kind) guard post (f kind) (g kind))
    (hend : i.MirrorsTry (fun p => pre p ∧ p.cursor.rest = []) guard post (f .finish)
      (g .semicolon)) :
    i.MirrorsTry pre guard post (liftM peek >>= f) (liftM peek >>= g) :=
  Mirrors.peek_bind h hend

theorem lift_remaining_bind {f g : Nat → Attempt α}
    (h : ∀ n n', n ≤ n' → i.MirrorsTry pre guard post (f n) (g n')) :
    i.MirrorsTry pre guard post (liftM remaining >>= f) (liftM remaining >>= g) :=
  Mirrors.remaining_bind h

theorem lift_setting_bind {f g : Setting → Attempt α}
    (h : ∀ pairs, i.MirrorsTry pre guard post (f ⟨i.own, pairs⟩) (g ⟨i.whole, pairs⟩)) :
    i.MirrorsTry pre guard post (liftM (readThe Setting : Reader Setting) >>= f)
      (liftM (readThe Setting : Reader Setting) >>= g) :=
  Mirrors.setting_bind h

theorem lift_advance_bind {kind : TokenKind} {f g : Unit → Attempt α}
    (hpre : ∀ p, pre p → p.cursor.kind = kind) (hkind : kind ≠ .finish ∧ kind ≠ .openCurly)
    (hnext : i.MirrorsTry (Consumed kind pre true) guard post (f ()) (g ())) :
    i.MirrorsTry pre guard post (liftM Reader.advance >>= f) (liftM Reader.advance >>= g) :=
  Mirrors.advance_bind hpre hkind hnext

theorem failAt (c : Cursor) (m : Mistake) {y : Attempt α} :
    i.MirrorsTry pre guard post (Attempt.failAt c m) y := by
  refine Mirrors.of_noting fun s p a q hx => ?_
  cases hx
  simp

theorem fail (m : Mistake) {y : Attempt α} :
    i.MirrorsTry pre guard post (Attempt.fail m) y := by
  refine Mirrors.of_noting fun s p a q hx => ?_
  cases hx
  simp

theorem expect_of {kind : TokenKind} (place : Place) (hkind : kind ≠ .finish ∧ kind ≠ .semicolon)
    (hbody : kind ≠ .openCurly ∨ ∀ p, pre p → ¬ p.cursor.Behind .arrow) :
    i.MirrorsTry pre guard (fun _ => Consumed kind pre true) (Attempt.expect kind place)
      (Attempt.expect kind place) := by
  refine .lift_bind (.consumeIf_of hkind hbody) fun found => ?_
  cases found with
  | true => exact .pure fun _ hq _ => hq
  | false => exact .fail _

theorem expect {kind : TokenKind} (place : Place) (hkind : Telling kind) :
    i.MirrorsTry pre guard (fun _ => Consumed kind pre true) (Attempt.expect kind place)
      (Attempt.expect kind place) :=
  .expect_of place ⟨hkind.1, hkind.2.1⟩ (.inl hkind.2.2)

end MirrorsTry

theorem Mirrors.settle {x y : Attempt Expr} {post : Expr → Progress → Prop}
    (h : i.MirrorsTry pre guard post x y) :
    i.Mirrors pre guard post (Reader.settle x) (Reader.settle y) where
  grows hx := by
    rw [outcome_settle] at hx
    obtain ⟨⟨r, t⟩, hr, heq⟩ := Option.bind_eq_some_iff.1 hx
    cases r with
    | ok e =>
      cases heq
      exact Mirrors.grows h hr
    | error node =>
      cases heq
      exact Mirrors.grows h hr
  reached harrived hbeside hp hx hclean hq := by
    rw [outcome_settle] at hx
    obtain ⟨⟨r, t⟩, hr, heq⟩ := Option.bind_eq_some_iff.1 hx
    cases r with
    | ok e =>
      cases heq
      obtain ⟨⟨b, hb, hpost⟩, harrived', q', hy, hbeside', hmistakes⟩ :=
        Mirrors.reached h harrived hbeside hp hr hclean hq
      cases hb
      refine ⟨hpost, harrived', q', ?_, hbeside', hmistakes⟩
      rw [outcome_settle, hy]
      rfl
    | error node =>
      cases heq
      obtain ⟨⟨b, hb, -⟩, -⟩ := Mirrors.reached h harrived hbeside hp hr hclean hq
      cases hb

end Inset

end DiceScript
