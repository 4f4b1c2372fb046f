import RSource.Proofs.Rebreaking

/-!
# Expressions in front of an `else` on another line

* `ReadsStatements.rebreak` — statements.
* `ReadsParens.rebreak`, `ReadsBehind.rebreak`, `ReadsOperand.rebreak` — control forms and the
  other operands.
* `ReadsOperations.rebreak` — operators.
* `rebreaks_readsExpression` — **an expression is read again where other line feeds stand in front
  of an `else`**, by induction on the levels of nesting.
-/

namespace RSource.Grammar

variable {ends : Prop} {E : ExprReads} {s s' r : Tape} {o : List Bracket} {close : TokenKind}
  {t : Token}

/-! ## The first token -/

theorem ne_of_startsExpression {k : TokenKind} (h : startsExpression k = true) :
    k ≠ .eof ∧ k ≠ .newline ∧ k ≠ .elseWord := by
  refine ⟨?_, ?_, ?_⟩ <;> rintro rfl <;> cases h

theorem rebreak_front (h : Abreast ends o s r) (ht : s.front = .ok t)
    (hstart : startsExpression t.kind = true) : r.front = .ok t := by
  obtain ⟨he, hn, hne⟩ := ne_of_startsExpression hstart
  exact (h.take ht he hn hne).1

/-- Behind line feeds, in front of an expression, both tapes stand at the same token. -/
theorem rebreak_lines (h : Abreast ends o s r)
    (hstart : ∃ t, s.afterLines.front = .ok t ∧ startsExpression t.kind = true) :
    (∃ t, r.beyond = .ok t) ∧ Abreast ends o s.afterLines r.afterLines := by
  obtain ⟨t, ht, hk⟩ := hstart
  obtain ⟨he, -, hne⟩ := ne_of_startsExpression hk
  obtain ⟨hr, hlines⟩ := h.afterLines ht he hne
  exact ⟨⟨t, hr⟩, hlines⟩

/-! ## Statements -/

section Statement

variable (hR : Replays E) (hE : Rebreaks ends E)

include hR

/-- In front of statements no `else` stands behind line feeds. -/
theorem ReadsStatements.front_same {es : List Expression} (h : ReadsStatements E close s es s')
    (hc : close ≠ .elseWord) (hb : Abreast ends o s r) (ht : s.front = .ok t) :
    r.front = .ok t ∧
      (t.kind ≠ .eof → Aligned ends (Scope.step ⟨o, false⟩ t.kind) (o.map Bracket.layout)
        s.past r.past) := by
  cases hb.fronts ht with
  | same hr hrest => exact ⟨hr, hrest⟩
  | apart _ hx _ hk _ _ hf =>
      obtain ⟨v, hv, hne⟩ := h.beyond hR hc (hb.isFree.1.trans hf)
      rw [hx] at hv
      cases hv
      exact absurd hk hne

include hE

theorem ReadsStatements.rebreak {es : List Expression} (h : ReadsStatements E close s es s')
    (hc : close ≠ .elseWord) (hb : Abreast ends o s r) :
    ∃ r', ReadsStatements E close r es r' ∧ Abreast ends o s' r' := by
  induction h generalizing r with
  | skip ht hk hs ih =>
      obtain ⟨hr, hpast⟩ := (ReadsStatements.skip ht hk hs).front_same hR hc hb ht
      obtain ⟨hstep, hne⟩ := step_separator (o := o) hk
      rw [hstep] at hpast
      obtain ⟨r', hs', hb'⟩ := ih (hpast hne)
      exact ⟨r', .skip hr hk hs', hb'⟩
  | stop ht hk hsep =>
      obtain ⟨hr, -⟩ := (ReadsStatements.stop (E := E) ht hk hsep).front_same hR hc hb ht
      exact ⟨r, .stop hr hk hsep, hb⟩
  | more ht hsep hnc heof he hu hf hs ih =>
      have hstart := hR.starts he
      rw [ht] at hstart
      obtain ⟨_, hv, hstart⟩ := hstart
      cases hv
      obtain ⟨r₁, he', hb₁⟩ := hE he hb
      obtain ⟨hr₁, -⟩ := hs.front_same hR hc hb₁ hu
      obtain ⟨r', hs', hb'⟩ := ih hb₁
      exact ⟨r', .more (rebreak_front hb ht hstart) hsep hnc heof he' hr₁ hf hs', hb'⟩

/-! ## Headers and bodies -/

omit hR in
theorem ReadsParens.rebreak {header : Bool} {e : Expression} (h : ReadsParens E s e s')
    (hb : Aligned ends ⟨o, header⟩ (o.map Bracket.layout) s r) :
    ∃ r', ReadsParens E r e r' ∧ Abreast ends o s' r' := by
  cases h with
  | mk ht hk he hu hc =>
      obtain ⟨hr, hpast⟩ := hb.take ht (by simp [hk]) (by simp [hk]) (by simp [hk])
      rw [hk] at hpast
      have hin : Abreast ends (parenOf header :: o) (s.past.enter .free) (r.past.enter .free) := by
        cases header <;> exact hpast.enter .free
      obtain ⟨r₁, he', hb₁⟩ := hE he hin
      obtain ⟨hr₁, hb'⟩ := rebreak_close hb₁ hu (Or.inl hc) (by rw [hc]; rfl)
      exact ⟨_, .mk hr hk he' hr₁ hc, hb'⟩

theorem ReadsBehind.rebreak {m : Nat} {e : Expression} (h : ReadsBehind E m s e s')
    (hb : Abreast ends o s r) : ∃ r', ReadsBehind E m r e r' ∧ Abreast ends o s' r' := by
  cases h with
  | mk _ he =>
      obtain ⟨⟨t, ht⟩, hlines⟩ := rebreak_lines hb (hR.starts he)
      obtain ⟨r', he', hb'⟩ := hE he hlines
      exact ⟨r', .mk ht he', hb'⟩

omit hR hE in
/-- The parenthesis of a header. -/
theorem rebreak_header (hb : Abreast ends o s r) (ht : s.front = .ok t)
    (hk : t.kind = .functionWord ∨ t.kind = .forWord) {u : Token} (hu : s.past.front = .ok u)
    (ho : u.kind = .lparen) :
    r.front = .ok t ∧ r.past.front = .ok u ∧
      Abreast ends (.header :: o) (s.past.past.enter .free) (r.past.past.enter .free) := by
  obtain ⟨he, hn, hne⟩ : t.kind ≠ .eof ∧ t.kind ≠ .newline ∧ t.kind ≠ .elseWord := by
    rcases hk with hk | hk <;> simp [hk]
  have hstep : Scope.step ⟨o, false⟩ t.kind = ⟨o, true⟩ := by
    rcases hk with hk | hk <;> rw [hk] <;> rfl
  obtain ⟨hr, hpast⟩ := hb.take ht he hn hne
  rw [hstep] at hpast
  have hword : Aligned ends ⟨o, true⟩ (Scope.layouts ⟨o, true⟩) s.past r.past := hpast
  obtain ⟨hr', hpast'⟩ := hword.take hu (by simp [ho]) (by simp [ho]) (by simp [ho])
  rw [ho] at hpast'
  exact ⟨hr, hr', hpast'.enter .free⟩

omit hR hE in
/-- The word of a condition or of a loop. -/
theorem rebreak_word (hb : Abreast ends o s r) (ht : s.front = .ok t)
    (hk : t.kind = .ifWord ∨ t.kind = .whileWord) :
    r.front = .ok t ∧ Aligned ends ⟨o, true⟩ (o.map Bracket.layout) s.past r.past := by
  obtain ⟨he, hn, hne⟩ : t.kind ≠ .eof ∧ t.kind ≠ .newline ∧ t.kind ≠ .elseWord := by
    rcases hk with hk | hk <;> simp [hk]
  have hstep : Scope.step ⟨o, false⟩ t.kind = ⟨o, true⟩ := by
    rcases hk with hk | hk <;> rw [hk] <;> rfl
  obtain ⟨hr, hpast⟩ := hb.take ht he hn hne
  rw [hstep] at hpast
  exact ⟨hr, hpast⟩

/-! ## Operands -/

omit hR hE in
/-- A constant opens and closes nothing. -/
theorem rebreak_constant {c : Constant} (hb : Abreast ends o s r) (ht : s.front = .ok t)
    (hc : Constant.ofToken? t = some c) : r.front = .ok t ∧ Abreast ends o s.past r.past := by
  have hleaf : (ConstantKind.ofKind? t.kind).isSome = true := by
    unfold Constant.ofToken? at hc
    split at hc
    · cases hc
    · rename_i hk
      rw [hk]
      rfl
  refine rebreak_token hb ht (isLayout_of_constant hc) ?_ (step_leaf (by simp [hleaf])).1
  intro hk
  rw [hk] at hleaf
  cases hleaf

theorem ReadsOperand.rebreak {x : Operand} (h : ReadsOperand E s x s') (hb : Abreast ends o s r) :
    ∃ r', ReadsOperand E r x r' ∧ Abreast ends o s' r' := by
  cases h with
  | constant ht hc =>
      obtain ⟨hr, hpast⟩ := rebreak_constant hb ht hc
      exact ⟨_, .constant hr hc, hpast⟩
  | @identifier t ht hk =>
      obtain ⟨hl, hne⟩ : t.kind.isLayout = false ∧ t.kind ≠ .elseWord := by
        rcases hk with hk | hk | hk | hk <;> rw [hk] <;> exact ⟨rfl, by decide⟩
      obtain ⟨hr, hpast⟩ := rebreak_token hb ht hl hne
        (step_leaf (hk.imp_right (Or.imp_right (Or.imp_right Or.inl)))).1
      exact ⟨_, .identifier hr hk, hpast⟩
  | paren he =>
      obtain ⟨r', he', hb'⟩ := he.rebreak hE hb
      exact ⟨r', .paren he', hb'⟩
  | block ht hk hs hu hc =>
      obtain ⟨hr, hpast⟩ := hb.take ht (by simp [hk]) (by simp [hk]) (by simp [hk])
      rw [hk] at hpast
      have hin : Abreast ends (.brace :: o) (s.past.enter .lined) (r.past.enter .lined) :=
        hpast.enter .lined
      obtain ⟨r₁, hs', hb₁⟩ := hs.rebreak hR hE (by decide) hin
      obtain ⟨hr₁, hb'⟩ := rebreak_close hb₁ hu (Or.inr (Or.inr hc)) (by rw [hc]; rfl)
      exact ⟨_, .block hr hk hs' hr₁ hc, hb'⟩
  | function ht hk hu ho hf hv hc he =>
      obtain ⟨hr, hr', hin⟩ := rebreak_header hb ht (Or.inl hk) hu ho
      obtain ⟨r₁, hf', hb₁⟩ := hf.rebreak hE rfl hin
      obtain ⟨hr₁, hout⟩ := rebreak_close hb₁ hv (Or.inl hc) (by rw [hc]; rfl)
      obtain ⟨r', he', hb'⟩ := he.rebreak hR hE hout
      exact ⟨r', .function hr hk hr' ho hf' hr₁ hc he', hb'⟩
  | ifThen ht hk hp he hx hne =>
      obtain ⟨hr, hword⟩ := rebreak_word hb ht (Or.inl hk)
      obtain ⟨r₁, hp', hb₁⟩ := hp.rebreak hE hword
      obtain ⟨r', he', hb'⟩ := he.rebreak hR hE hb₁
      obtain ⟨y, hy, helse⟩ := hb'.clause hx
      exact ⟨r', .ifThen hr hk hp' he' hy fun h => hne (helse.mp h), hb'⟩
  | ifElse ht hk hp he hx hj hy hi ho =>
      obtain ⟨hr, hword⟩ := rebreak_word hb ht (Or.inl hk)
      obtain ⟨r₁, hp', hb₁⟩ := hp.rebreak hE hword
      obtain ⟨r₂, he', hb₂⟩ := he.rebreak hR hE hb₁
      obtain ⟨z, hz, helse⟩ := hb₂.clause hx
      obtain ⟨hr₂, hpast⟩ := hb₂.otherwise hx hj hy hi
      rw [hi] at hpast
      obtain ⟨r', ho', hb'⟩ := ho.rebreak hR hE hpast
      exact ⟨r', .ifElse hr hk hp' he' hz (helse.mpr hj) hr₂ hi ho', hb'⟩
  | forLoop ht hk hu ho hi hv hin hq hw hc he =>
      obtain ⟨hr, hr', hopened⟩ := rebreak_header hb ht (Or.inr hk) hu ho
      obtain ⟨r₁, hi', hb₁⟩ := hi.rebreak hopened
      obtain ⟨hr₁, hpast⟩ := rebreak_token hb₁ hv (by rw [hin]; rfl) (by simp [hin])
        (by rw [hin]; rfl)
      obtain ⟨r₂, hq', hb₂⟩ := hE hq hpast
      obtain ⟨hr₂, hout⟩ := rebreak_close hb₂ hw (Or.inl hc) (by rw [hc]; rfl)
      obtain ⟨r', he', hb'⟩ := he.rebreak hR hE hout
      exact ⟨r', .forLoop hr hk hr' ho hi' hr₁ hin hq' hr₂ hc he', hb'⟩
  | whileLoop ht hk hp he =>
      obtain ⟨hr, hword⟩ := rebreak_word hb ht (Or.inr hk)
      obtain ⟨r₁, hp', hb₁⟩ := hp.rebreak hE hword
      obtain ⟨r', he', hb'⟩ := he.rebreak hR hE hb₁
      exact ⟨r', .whileLoop hr hk hp' he', hb'⟩
  | repeatLoop ht hk he =>
      obtain ⟨hr, hpast⟩ := rebreak_token hb ht (by rw [hk]; rfl) (by simp [hk]) (by rw [hk]; rfl)
      obtain ⟨r', he', hb'⟩ := he.rebreak hR hE hpast
      exact ⟨r', .repeatLoop hr hk he', hb'⟩

theorem ReadsTerm.rebreak {x : Term} (h : ReadsTerm E s x s') (hb : Abreast ends o s r) :
    ∃ r', ReadsTerm E r x r' ∧ Abreast ends o s' r' := by
  cases h with
  | mk ho hg =>
      obtain ⟨r₁, ho', hb₁⟩ := ho.rebreak hR hE hb
      obtain ⟨r', hg', hb'⟩ := hg.rebreak hE hb₁
      exact ⟨r', .mk ho' hg', hb'⟩

/-! ## Operators -/

theorem ReadsLeading.rebreak {e : Expression} (h : ReadsLeading E t s e s')
    (ht : s.front = .ok t) (hb : Abreast ends o s r) :
    ∃ r', ReadsLeading E t r e r' ∧ Abreast ends o s' r' := by
  obtain ⟨-, -, hne⟩ := ne_of_startsExpression (startsExpression_of_leading h ht)
  cases h with
  | unary hop he =>
      obtain ⟨-, hpast⟩ := rebreak_token hb ht (isLayout_of_unary hop) hne (Scope.step_unary hop)
      obtain ⟨r', he', hb'⟩ := he.rebreak hR hE hpast
      exact ⟨r', .unary hop he', hb'⟩
  | help hk he =>
      obtain ⟨-, hpast⟩ := rebreak_token hb ht (by rw [hk]; rfl) hne (by rw [hk]; rfl)
      obtain ⟨r', he', hb'⟩ := he.rebreak hR hE hpast
      exact ⟨r', .help hk he', hb'⟩
  | term hop hk hx =>
      obtain ⟨r', hx', hb'⟩ := hx.rebreak hR hE hb
      exact ⟨r', .term hop hk hx', hb'⟩

omit hE in
theorem startsExpression_of_right {op : TokenKind} {power : Power} {e : Expression}
    (h : ReadsRight E op power s e s') :
    ∃ t, s.front = .ok t ∧ startsExpression t.kind = true := by
  cases h with
  | bare _ _ ho => exact startsExpression_of_operand ho
  | full _ he => exact hR.starts he

theorem ReadsRight.rebreak {op : TokenKind} {power : Power} {e : Expression}
    (h : ReadsRight E op power s e s') (hb : Abreast ends o s r) :
    ∃ r', ReadsRight E op power r e r' ∧ Abreast ends o s' r' := by
  obtain ⟨u, hu, hstart⟩ := startsExpression_of_right hR h
  have hr := rebreak_front hb hu hstart
  cases h with
  | bare hop ht ho =>
      obtain ⟨r', ho', hb'⟩ := ho.rebreak hR hE hb
      rw [hu] at ht
      cases ht
      exact ⟨r', .bare hop hr ho', hb'⟩
  | full hop he =>
      obtain ⟨r', he', hb'⟩ := hE he hb
      exact ⟨r', .full hop he', hb'⟩

theorem ReadsOperations.rebreak {m : Nat} {loc : Location} {lhs e : Expression}
    (h : ReadsOperations E m loc lhs s e s') (hb : Abreast ends o s r) :
    ∃ r', ReadsOperations E m loc lhs r e r' ∧ Abreast ends o s' r' := by
  induction h generalizing r with
  | stop ht hk hp =>
      obtain ⟨u, hu, rfl | ⟨-, hq⟩⟩ := hb.quiet ht
      · exact ⟨r, .stop hu hk hp, hb⟩
      · refine ⟨r, .stop hu hq.1 fun p hp => ?_, hb⟩
        rw [hq.2] at hp
        cases hp
  | @groups s _ _ t _ _ _ ht hk hg _ ih =>
      obtain ⟨he, hn, hne⟩ : t.kind ≠ .eof ∧ t.kind ≠ .newline ∧ t.kind ≠ .elseWord := by
        refine ⟨?_, ?_, ?_⟩ <;> intro hkind <;> simp [hkind, Brackets.ofKind?] at hk
      obtain ⟨hr, -⟩ := hb.take ht he hn hne
      obtain ⟨r₁, hg', hb₁⟩ := hg.rebreak hE hb
      obtain ⟨r', ho', hb'⟩ := ih hb₁
      exact ⟨r', .groups hr hk hg' ho', hb'⟩
  | @operator s _ _ t _ _ _ _ _ _ ht hk hp hm _ hr hj _ ih =>
      have hne : t.kind ≠ .elseWord := by
        intro hkind
        simp [hkind, Power.ofKind?] at hp
      obtain ⟨hfront, hpast⟩ := rebreak_token hb ht (isLayout_of_power hp) hne
        (Scope.step_power hp)
      obtain ⟨⟨v, hv⟩, hlines⟩ := rebreak_lines hpast (startsExpression_of_right hR hr)
      obtain ⟨r₁, hr', hb₁⟩ := hr.rebreak hR hE hlines
      obtain ⟨r', ho', hb'⟩ := ih hb₁
      exact ⟨r', .operator hfront hk hp hm hv hr' hj ho', hb'⟩

theorem ReadsLevel.rebreak {m : Nat} {e : Expression} (h : ReadsLevel E m s e s')
    (hb : Abreast ends o s r) : ∃ r', ReadsLevel E m r e r' ∧ Abreast ends o s' r' := by
  cases h with
  | mk ht hl ho =>
      have hr := rebreak_front hb ht (startsExpression_of_leading hl ht)
      obtain ⟨r₁, hl', hb₁⟩ := hl.rebreak hR hE ht hb
      obtain ⟨r', ho', hb'⟩ := ho.rebreak hR hE hb₁
      exact ⟨r', .mk hr hl' ho', hb'⟩

end Statement

/-- **An expression is read again where other line feeds stand in front of an `else`** in
brackets. -/
theorem rebreaks_readsExpression (ends : Prop) (levels : Nat) :
    Rebreaks ends (ReadsExpression levels) := by
  induction levels with
  | zero => exact fun _ _ _ _ _ _ h => h.elim
  | succ levels ih =>
      exact fun _ _ _ _ _ _ h => ReadsLevel.rebreak (replays_readsExpression levels) ih h

end RSource.Grammar
