import RSource.Proofs.Replay

/-!
# Expressions derived again

Statements, operands and operators are derived from whatever tokens write them. Only a statement
may end where other tokens stand, and there a line feed ends it as well.

* `startsExpression_of_operand`, `startsExpression_of_leading` — what the first token of an
  expression may be.
* `ReadsStatements.replay`, `ReadsOperand.replay`, `ReadsTerm.replay` — statements and operands.
* `ReadsOperations.replay` — behind a first operand: the rest of the items writes the rest.
* `replays_readsExpression` — **an expression is derived from whatever tokens write it**, by
  induction on the levels of nesting.
-/

namespace RSource.Grammar

variable {E : ExprReads} {s s' s₂ s₂' : Tape}

/-! ## The first token -/

theorem startsExpression_of_constant {t : Token} {c : Constant}
    (h : Constant.ofToken? t = some c) : startsExpression t.kind = true := by
  unfold Constant.ofToken? at h
  generalize t.kind = k at h
  cases k <;> first | rfl | cases h

theorem startsExpression_of_operand {o : Operand} (h : ReadsOperand E s o s') :
    ∃ t, s.front = .ok t ∧ startsExpression t.kind = true := by
  cases h with
  | constant ht hc => exact ⟨_, ht, startsExpression_of_constant hc⟩
  | identifier ht hk =>
      refine ⟨_, ht, ?_⟩
      rcases hk with hk | hk | hk | hk <;> rw [hk] <;> rfl
  | paren he =>
      cases he with
      | mk ht hk => exact ⟨_, ht, by rw [hk]; rfl⟩
  | block ht hk | function ht hk | ifThen ht hk | ifElse ht hk | forLoop ht hk | whileLoop ht hk
  | repeatLoop ht hk => exact ⟨_, ht, by rw [hk]; rfl⟩

theorem startsExpression_of_leading {t : Token} {e : Expression} (h : ReadsLeading E t s e s')
    (ht : s.front = .ok t) : startsExpression t.kind = true := by
  cases h with
  | unary hop =>
      generalize t.kind = k at hop
      cases k <;> first | rfl | cases hop
  | help hk => rw [hk]; rfl
  | term hop hk hx =>
      cases hx with
      | mk ho hg =>
          obtain ⟨u, hu, hs⟩ := startsExpression_of_operand ho
          rw [ht] at hu
          cases hu
          exact hs

/-- An operator before its operand is no name of an argument. -/
theorem argName_of_unary {t : Token} {op : UnaryOp} (h : UnaryOp.ofKind? t.kind = some op) :
    ArgName.ofToken? t = none := by
  unfold ArgName.ofToken?
  generalize t.kind = k at h
  cases k <;> first | rfl | cases h

/-! ## Statements -/

/-- An expression ends where none goes on. -/
theorem isQuiet_of_ends {edge : List Edge} {t : Token} (h : Ends 0 edge s) (ht : s.front = .ok t) :
    IsQuiet t.kind := by
  obtain ⟨u, hu, hb, hp⟩ := h.front
  rw [ht] at hu
  cases hu
  refine ⟨hb, ?_⟩
  cases hpow : Power.ofKind? t.kind with
  | none => rfl
  | some p => exact absurd (hp p hpow).1 (Nat.not_lt_zero _)

theorem ne_else_of_mayFollow {close k : TokenKind} (h : mayFollow close k = true)
    (hc : close ≠ .elseWord) : k ≠ .elseWord := by
  rintro rfl
  simp [mayFollow, separates, startsExpression, Ne.symm hc] at h

section Statement

variable (hC : Covers E) (hT : Tied E) (hR : Replays E)

include hR in
/-- No statement and nothing that ends statements is an `else`. -/
theorem ReadsStatements.beyond {close : TokenKind} {es : List Expression}
    (h : ReadsStatements E close s es s') (hc : close ≠ .elseWord) (hfree : s.isFree = false) :
    ∃ t, s.beyond = .ok t ∧ t.kind ≠ .elseWord := by
  have hlined : ∀ {r : Tape} {t : Token}, r.isFree = false → r.front = .ok t →
      t.kind ≠ .newline → r.beyond = .ok t := fun hr ht hk => by
    rw [Tape.front, Tape.shown, hr] at ht
    exact Tape.Faces.beyond ⟨ht, hk⟩
  induction h with
  | @skip s s' t es ht hk hs ih =>
      by_cases hn : t.kind = .newline
      · obtain ⟨v, hv, hne⟩ := ih (by rwa [Tape.isFree_past])
        rw [Tape.beyond_past hfree ht hn] at hv
        exact ⟨v, hv, hne⟩
      · exact ⟨t, hlined hfree ht hn, by rintro he; simp [he, separates] at hk⟩
  | @stop s t ht hk hsep =>
      refine ⟨t, hlined hfree ht ?_, by rwa [hk]⟩
      rintro hn
      simp [hn, separates] at hsep
  | @more s s₁ s' t u e es ht hsep hne heof he hu hf hs =>
      obtain ⟨v, hv, hstart⟩ := hR.starts he
      rw [ht] at hv
      cases hv
      refine ⟨t, hlined hfree ht ?_, ?_⟩
      · rintro hn
        simp [hn, separates] at hsep
      · rintro hn
        simp [hn, startsExpression] at hstart

include hR in
/-- A statement ends before a line feed if it ends before what it ended before. -/
theorem ReadsStatements.agree {close : TokenKind} {es es' : List Expression} {t u : Token}
    (h : ReadsStatements E close s es s') (h' : ReadsStatements E close s₂ es' s₂')
    (hc : close ≠ .elseWord) (hfree : s.isFree = false) (hl : s₂.layouts = s.layouts)
    (ht : s.front = .ok t) (hq : IsQuiet t.kind) (hne : t.kind ≠ .elseWord)
    (hu : s₂.front = .ok u) (hk : u.kind = .newline) : Agree s s₂ := by
  refine ⟨⟨t, u, ht, hu, Or.inr ⟨hq, by rw [hk]; exact ⟨rfl, rfl⟩⟩⟩, ?_⟩
  have hfree' : s₂.isFree = false := by rwa [Tape.isFree, hl]
  have hbrackets : s₂.inBrackets = s.inBrackets := by rw [Tape.inBrackets, hl, Tape.inBrackets]
  unfold Tape.clause
  rw [hbrackets]
  split
  · obtain ⟨v, hv, hnv⟩ := h.beyond hR hc hfree
    obtain ⟨w, hw, hnw⟩ := h'.beyond hR hc hfree'
    exact ⟨v, w, hv, hw, iff_of_false hnw hnv⟩
  · exact ⟨t, u, ht, hu, iff_of_false (by simp [hk]) hne⟩

/-- Statements behind a line feed. -/
theorem ReadsStatements.of_tail {close : TokenKind} {es : List Expression} {t : Token}
    (h : ReadsStatements E close s.tail es s') (hfree : s.isFree = false) (ht : s.head = .ok t)
    (hk : t.kind = .newline) : ReadsStatements E close s es s' := by
  have hshown := Tape.shown_of_lined hfree
  refine .skip (t := t) (by rwa [Tape.front, hshown]) (by rw [hk]; rfl) ?_
  rwa [Tape.past, hshown]

include hC hT hR

/-- Statements are derived again, each from a line of its own. -/
theorem ReadsStatements.replay {close : TokenKind} {es : List Expression}
    (h : ReadsStatements E close s es s') (hc : close ≠ .elseWord) (hfree : s.isFree = false)
    (hl : s₂.layouts = s.layouts) (hw : Written (statementItems es) s₂ s₂') {u : Token}
    (hu : s₂'.Faces u) (hk : u.kind = close) :
    ∃ es', ReadsStatements E close s₂ es' s₂' ∧ eraseExpressions es' = eraseExpressions es := by
  induction h generalizing s₂ with
  | skip ht hsep hs ih => exact ih (by rwa [Tape.isFree_past]) (by simpa using hl) hw
  | stop ht hclose hsep =>
      rw [hw.of_nil] at hu ⊢
      exact ⟨[], .stop hu.front hk (by rwa [hk, ← hclose]), rfl⟩
  | @more s s₁ s' t v e es ht hsep hne heof he hv hf hs ih =>
      obtain ⟨s₃, hwe, hrest⟩ := hw.split
      obtain ⟨w, hw', hkw, hnext⟩ := hrest.lineBreak
      have hl₁ : s₁.layouts = s.layouts := (hC.spans he).layouts
      have hl₃ := hwe.same_layouts (hC.spans he) hl
      have hfree₁ : s₁.isFree = false := by rwa [Tape.isFree, hl₁]
      have hfree₃ : s₃.isFree = false := by rwa [Tape.isFree, hl₃]
      have hfront : s₃.front = .ok w := by rwa [Tape.front, Tape.shown_of_lined hfree₃]
      have hl₄ : s₃.tail.layouts = s₁.layouts := hl₃
      obtain ⟨es', hes', herases⟩ := ih hfree₁ hl₄ hnext
      have hbreak := hes'.of_tail hfree₃ hw' hkw
      have hq := isQuiet_of_ends (hT.ends he) hv
      have hagree := hs.agree hR hbreak hc hfree₁ hl₃ hv hq (ne_else_of_mayFollow hf hc) hfront hkw
      obtain ⟨⟨e', he', herase⟩, hsame, -⟩ := hR.replay he hl hwe hagree
      obtain ⟨t', ht', hkt⟩ := hsame.faces ht
      refine ⟨e' :: es', .more ht'.front (by rwa [hkt]) (by rwa [hkt]) (by rwa [hkt]) he' hfront
        (by rw [hkw]; rfl) hbreak, ?_⟩
      simp only [eraseExpressions, herase, herases]

/-- Statements in braces start on a line of their own. -/
theorem ReadsStatements.replay_block {close : TokenKind} {es : List Expression}
    (h : ReadsStatements E close s es s') (hc : close ≠ .elseWord) (hfree : s.isFree = false)
    (hl : s₂.layouts = s.layouts) (hw : Written (Item.blockBreak es ++ statementItems es) s₂ s₂')
    {u : Token} (hu : s₂'.Faces u) (hk : u.kind = close) :
    ∃ es', ReadsStatements E close s₂ es' s₂' ∧ eraseExpressions es' = eraseExpressions es := by
  cases es with
  | nil => exact h.replay hC hT hR hc hfree hl hw hu hk
  | cons e es =>
      obtain ⟨w, hw', hkw, hnext⟩ := Written.lineBreak hw
      have hfree₂ : s₂.isFree = false := by rwa [Tape.isFree, hl]
      have hl₃ : s₂.tail.layouts = s.layouts := hl
      obtain ⟨es', hes', herases⟩ := h.replay hC hT hR hc hfree hl₃ hnext hu hk
      exact ⟨es', hes'.of_tail hfree₂ hw' hkw, herases⟩

/-! ## Operands -/

omit hC hT in
theorem ReadsParens.replay {e : Expression} {u : Token} {is : List Item}
    (h : ReadsParens E s e s') (hl : s₂.layouts = s.layouts) (hu : s₂.Faces u)
    (hk : u.kind = .lparen) (hw : Written (e.items ++ .word .rparen :: is) s₂.past s₂') :
    ∃ e' s₃, ReadsParens E s₂ e' s₃ ∧ e'.erase = e.erase ∧ Written is s₃ s₂' := by
  cases h with
  | mk ht hopen he hv hc =>
      obtain ⟨s₃, hwe, hrest⟩ := (hw.enter .free).split
      obtain ⟨w, hw', hkw, hnext⟩ := hrest.word (by simp)
      have hl' : (s₂.past.enter .free).layouts = (s.past.enter .free).layouts := by simp [hl]
      have hsame : SameFront _ s₃ := ⟨_, w, hv, hw', hkw.trans hc.symm⟩
      obtain ⟨⟨e', he', herase⟩, -⟩ := hR.replay he hl' hwe hsame.agree
      exact ⟨e', _, .mk hu.front hk he' hw'.front hkw, herase, hnext.leave⟩

omit hC hT in
theorem ReadsBehind.replay {m : Nat} {e : Expression} (h : ReadsBehind E m s e s')
    (hl : s₂.layouts = s.layouts) (hw : Written e.items s₂ s₂') (hend : Agree s' s₂') :
    ∃ e', ReadsBehind E m s₂ e' s₂' ∧ e'.erase = e.erase := by
  cases h with
  | mk ht he =>
      obtain ⟨⟨e', he', herase⟩, hsame, -⟩ := hR.replay he (by simpa using hl) hw hend
      obtain ⟨t, u, -, hu, -⟩ := hsame
      exact ⟨e', .mk hu.beyond (by rwa [hu.afterLines]), herase⟩

omit hT in
/-- A condition with what stands behind it. -/
theorem ReadsParens.replay_condition {c : Expression} {t : Token} {k : TokenKind}
    {label : Label} {loc : Location} {is : List Item} (h : ReadsParens E s.past c s')
    (ht : s.front = .ok t) (hk : t.kind = k) (hne : k ≠ .newline) (hl : s₂.layouts = s.layouts)
    (hw : Written (.mark label loc :: .word k :: .word .lparen :: .mark .condition c.loc ::
      (c.items ++ .word .rparen :: is)) s₂ s₂') :
    ∃ u c' s₃, s₂.Faces u ∧ u.kind = k ∧ ReadsParens E s₂.past c' s₃ ∧ c'.erase = c.erase ∧
      Written is s₃ s₂' ∧ s₃.layouts = s'.layouts ∧ SameFront s s₂ := by
  obtain ⟨u, hu, hku, hrest⟩ := hw.unmark.word hne
  obtain ⟨v, hv, hkv, hnext⟩ := hrest.word (by simp)
  obtain ⟨c', s₃, hc', herase, hbody⟩ :=
    h.replay hR (by simpa using hl) hv hkv hnext.unmark
  have hl₃ : s₃.layouts = s'.layouts := by
    rw [← hbody.layouts, hw.layouts, hl, (h.spans hC).layouts, Tape.past_layouts]
  exact ⟨u, c', s₃, hu, hku, hc', herase, hbody, hl₃, t, u, ht, hu, hku.trans hk.symm⟩

omit hC hT hR in
/-- A leaf is read again: the token that writes it, and what its token is alike to. -/
theorem leaf_replay {t : Token} {label : Label} {loc : Location} {k : TokenKind} {text : String}
    (ht : s.front = .ok t) (hk : t.kind.isLayout = false)
    (hf : Fits [.mark label loc, .token k text] [t])
    (hw : Written [.mark label loc, .token k text] s₂ s₂') :
    ∃ u, s₂.Faces u ∧ Alike t u ∧ s₂' = s₂.past ∧ SameFront s s₂ := by
  obtain ⟨u, hu, ha, hnil⟩ := hw.unmark.alike (code_of_fits hf) hk
  exact ⟨u, hu, ha, hnil.of_nil, t, u, ht, hu, ha.kind⟩

omit hC hT hR in
/-- Only a name or a constant starts with what may name an argument. -/
theorem argName_of_kind {t : Token} {k : TokenKind} (hk : t.kind = k)
    (h : k ≠ .ident ∧ k ≠ .quotedIdent ∧ k ≠ .str ∧ k ≠ .nullWord) :
    ArgName.ofToken? t = none := by
  unfold ArgName.ofToken?
  rw [hk]
  split <;> simp_all

/-- An operand is read again. Where its first token may name an argument it is all of it. -/
theorem ReadsOperand.replay {o : Operand} (h : ReadsOperand E s o s')
    (hl : s₂.layouts = s.layouts) (hw : Written o.items s₂ s₂') (hend : Agree s' s₂') :
    (∃ o', ReadsOperand E s₂ o' s₂' ∧ o'.erase = o.erase) ∧ SameFront s s₂ ∧
      ∀ t n, s.front = .ok t → ArgName.ofToken? t = some n → Agree s.past s₂.past := by
  have hword : ∀ {t : Token} {k : TokenKind}, s.front = .ok t → t.kind = k →
      (k ≠ .ident ∧ k ≠ .quotedIdent ∧ k ≠ .str ∧ k ≠ .nullWord) →
      ∀ u n, s.front = .ok u → ArgName.ofToken? u = some n → Agree s.past s₂.past := by
    intro t k ht hk hne u n hu hn
    rw [ht] at hu
    cases hu
    rw [argName_of_kind hk hne] at hn
    cases hn
  cases h with
  | constant ht hc =>
      have hk := isLayout_of_constant hc
      obtain ⟨u, hu, ha, rfl, hsame⟩ :=
        leaf_replay ht hk (Constant.fits_ofToken? (Tape.spelled_of_front ht hk) hc) hw
      obtain ⟨d, hd, herase⟩ := ha.constant hc
      exact ⟨⟨.constant d, .constant hu.front hd, congrArg Operand.constant herase⟩, hsame,
        fun _ _ _ _ => hend⟩
  | @identifier t ht hk =>
      have hlayout : t.kind.isLayout = false := by
        rcases hk with hk | hk | hk | hk <;> rw [hk] <;> rfl
      obtain ⟨u, hu, ha, rfl, hsame⟩ :=
        leaf_replay ht hlayout (Identifier.fits_ofToken (Tape.spelled_of_front ht hlayout) hk) hw
      have hne : t.kind ≠ .caret := by
        rcases hk with hk | hk | hk | hk <;> simp [hk]
      exact ⟨⟨_, .identifier hu.front (by rwa [ha.kind]),
        congrArg Operand.identifier (ha.identifier hne)⟩, hsame, fun _ _ _ _ => hend⟩
  | paren he =>
      obtain ⟨u, hu, hku, hrest⟩ := Written.word hw (by simp)
      obtain ⟨e', s₃, he', herase, hnil⟩ := he.replay hR hl hu hku hrest
      rw [hnil.of_nil]
      cases he with
      | mk ht hk =>
          refine ⟨⟨_, .paren he', congrArg Operand.paren herase⟩, ?_, hword ht hk (by simp)⟩
          exact ⟨_, u, ht, hu, hku.trans hk.symm⟩
  | @block s₁ t v es ht hk hs hv hc =>
      obtain ⟨u, hu, hku, hrest⟩ := Written.word (Written.unmark hw) (by simp)
      obtain ⟨s₃, hws, hclose⟩ := (hrest.unmark.enter .lined).split
      obtain ⟨w, hw', hkw, hnil⟩ := hclose.word (by simp)
      have hl' : (s₂.past.enter .lined).layouts = (s.past.enter .lined).layouts := by simp [hl]
      obtain ⟨es', hes', herase⟩ := hs.replay_block hC hT hR (by simp) rfl hl' hws hw' hkw
      rw [hnil.leave.of_nil]
      refine ⟨⟨_, .block hu.front hku hes' hw'.front hkw, ?_⟩, ?_, hword ht hk (by simp)⟩
      · rw [Operand.erase, Operand.erase, herase]
      · exact ⟨t, u, ht, hu, hku.trans hk.symm⟩
  | @function s₁ s' t v x fs e ht hk hv ho hf hx hc he =>
      obtain ⟨u, hu, hku, hrest⟩ := Written.word (Written.unmark hw) (by simp)
      obtain ⟨w, hw', hkw, hin⟩ := hrest.word (by simp)
      rw [List.append_assoc] at hin
      obtain ⟨s₃, hwf, hclose⟩ := (hin.unformals.enter .free).split
      obtain ⟨y, hy, hky, hbody⟩ := hclose.word (by simp)
      have hl' : (s₂.past.past.enter .free).layouts = (s.past.past.enter .free).layouts := by
        simp [hl]
      have hsame : SameFront s₁ s₃ := ⟨x, y, hx, hy, hky.trans hc.symm⟩
      obtain ⟨fs', hfs', herases⟩ := hf.replay hC hR hl' hwf hsame
      have hl₃ : s₃.past.leave.layouts = s₁.past.leave.layouts := by
        simpa using congrArg List.tail (hwf.same_layouts (hf.spans hC) hl')
      obtain ⟨e', he', herase⟩ := he.replay hR hl₃ hbody.leave hend
      refine ⟨⟨_, .function hu.front hku hw'.front hkw hfs' hy.front hky he', ?_⟩, ?_,
        hword ht hk (by simp)⟩
      · rw [Operand.erase, Operand.erase, herases, herase]
      · exact ⟨t, u, ht, hu, hku.trans hk.symm⟩
  | ifThen ht hk hp he hx hne =>
      obtain ⟨u, c', s₃, hu, hku, hc', herase, hbody, hl₃, hsame⟩ :=
        hp.replay_condition hC hR ht hk (by simp) hl hw
      obtain ⟨e', he', heq⟩ := he.replay hR hl₃ hbody hend
      obtain ⟨y, hy, hney⟩ := hend.ne_else hx hne
      refine ⟨⟨_, .ifThen hu.front hku hc' he' hy hney, ?_⟩, hsame, hword ht hk (by simp)⟩
      rw [Operand.erase, Operand.erase, herase, heq]
  | @ifElse s₁ s₄ s' t x y c e o ht hk hp he hx hj hy hi ho =>
      obtain ⟨u, c', s₃, hu, hku, hc', herase, hbody, hl₃, hsame⟩ :=
        hp.replay_condition hC hR ht hk (by simp) hl hw
      obtain ⟨s₅, hwe, helse⟩ := hbody.split
      obtain ⟨v, hv, hkv, hother⟩ := helse.word (by simp)
      obtain ⟨w, hw', -⟩ := (he.ends hT).front
      have hquiet := isQuiet_of_ends (he.ends hT) hw'
      have hagree : Agree s₄ s₅ :=
        ⟨⟨w, v, hw', hv.front, Or.inr ⟨hquiet, by rw [hkv]; exact ⟨rfl, rfl⟩⟩⟩,
          ⟨x, v, hx, hv.clause, iff_of_true hkv hj⟩⟩
      obtain ⟨e', he', heq⟩ := he.replay hR hl₃ hwe hagree
      have hl₅ : s₅.past.layouts = s₄.afterLines.past.layouts := by
        simpa using hwe.same_layouts (he.spans hC) hl₃
      obtain ⟨o', ho', hoeq⟩ := ho.replay hR hl₅ hother hend
      have hlines := hv.afterLines
      refine ⟨⟨_, .ifElse hu.front hku hc' he' hv.clause hkv (by rw [hlines]; exact hv.front) hkv
        (by rwa [hlines]), ?_⟩, hsame, hword ht hk (by simp)⟩
      rw [Operand.erase, Operand.erase, herase, heq, hoeq]
  | @forLoop s₁ s₄ s' t v x y i q e ht hk hv ho hi hx hin hq hy hc he =>
      obtain ⟨u, hu, hku, hrest⟩ := Written.word (Written.unmark hw) (by simp)
      obtain ⟨w, hw', hkw, hhead⟩ := hrest.word (by simp)
      obtain ⟨s₃, hwi, hnext⟩ := (hhead.enter .free).split
      obtain ⟨x', hx', hkx, hseq⟩ := hnext.word (by simp)
      obtain ⟨s₅, hwq, hclose⟩ := hseq.split
      obtain ⟨y', hy', hky, hbody⟩ := hclose.word (by simp)
      obtain ⟨j, hj, hji, -⟩ := hi.replay hwi
      have hl' : (s₂.past.past.enter .free).layouts = (s.past.past.enter .free).layouts := by
        simp [hl]
      have hl₃ : s₃.past.layouts = s₁.past.layouts := by
        simpa using hwi.same_layouts hi.spans hl'
      have hsame : SameFront s₄ s₅ := ⟨y, y', hy, hy', hky.trans hc.symm⟩
      obtain ⟨⟨q', hq', hqq⟩, -⟩ := hR.replay hq hl₃ hwq hsame.agree
      have hl₅ : s₅.past.leave.layouts = s₄.past.leave.layouts := by
        simpa using congrArg List.tail (hwq.same_layouts (hC.spans hq) hl₃)
      obtain ⟨e', he', heq⟩ := he.replay hR hl₅ hbody.leave hend
      refine ⟨⟨_, .forLoop hu.front hku hw'.front hkw hj hx'.front hkx hq' hy'.front hky he', ?_⟩,
        ?_, hword ht hk (by simp)⟩
      · rw [Operand.erase, Operand.erase, hji, hqq, heq]
      · exact ⟨t, u, ht, hu, hku.trans hk.symm⟩
  | whileLoop ht hk hp he =>
      obtain ⟨u, c', s₃, hu, hku, hc', herase, hbody, hl₃, hsame⟩ :=
        hp.replay_condition hC hR ht hk (by simp) hl hw
      obtain ⟨e', he', heq⟩ := he.replay hR hl₃ hbody hend
      refine ⟨⟨_, .whileLoop hu.front hku hc' he', ?_⟩, hsame, hword ht hk (by simp)⟩
      rw [Operand.erase, Operand.erase, herase, heq]
  | repeatLoop ht hk he =>
      obtain ⟨u, hu, hku, hbody⟩ := Written.word (Written.unmark hw) (by simp)
      obtain ⟨e', he', heq⟩ := he.replay hR (by simpa using hl) hbody hend
      refine ⟨⟨_, .repeatLoop hu.front hku he', ?_⟩, ?_, hword ht hk (by simp)⟩
      · rw [Operand.erase, Operand.erase, heq]
      · exact ⟨_, u, ht, hu, hku.trans hk.symm⟩

theorem ReadsTerm.replay {x : Term} (h : ReadsTerm E s x s') (hl : s₂.layouts = s.layouts)
    (hw : Written x.items s₂ s₂') (hend : Agree s' s₂') :
    (∃ x', ReadsTerm E s₂ x' s₂' ∧ x'.erase = x.erase) ∧ SameFront s s₂ ∧
      ∀ t n, s.front = .ok t → ArgName.ofToken? t = some n → Agree s.past s₂.past := by
  cases h with
  | mk ho hg =>
      obtain ⟨s₃, hwo, hwg⟩ := hw.split
      have hl₃ := hwo.same_layouts (ho.spans hC) hl
      obtain ⟨⟨gs', hgs', herases⟩, hagree⟩ := hg.replay hC hR hl₃ hwg hend
      obtain ⟨⟨o', ho', herase⟩, hsame, hnext⟩ := ho.replay hC hT hR hl hwo hagree
      refine ⟨⟨_, .mk ho' hgs', ?_⟩, hsame, hnext⟩
      rw [Term.erase, Term.erase, herase, herases]

/-! ## Operators -/

theorem ReadsLeading.replay {t : Token} {e : Expression} (h : ReadsLeading E t s e s')
    (ht : s.front = .ok t) (hl : s₂.layouts = s.layouts) (hw : Written e.items s₂ s₂')
    (hend : Agree s' s₂') :
    (∃ u e', s₂.Faces u ∧ u.kind = t.kind ∧ ReadsLeading E u s₂ e' s₂' ∧ e'.erase = e.erase) ∧
      ∀ n, ArgName.ofToken? t = some n → Agree s.past s₂.past := by
  have hlayout := h.atCode ht
  have hspelled := Tape.spelled_of_front ht hlayout
  cases h with
  | unary hop he =>
      have hcode := UnaryOp.code_ofKind? hspelled hop
      obtain ⟨u, hu, ha, hrest⟩ := (Written.unmark hw).alike hcode hlayout
      obtain ⟨e', he', herase⟩ := he.replay hR (by simpa using hl) hrest.ofExpression hend
      refine ⟨⟨u, _, hu, ha.kind, .unary (by rwa [ha.kind]) he', ?_⟩, ?_⟩
      · simp [Expression.erase, herase]
      · intro n hn
        rw [argName_of_unary hop] at hn
        cases hn
  | help hk he =>
      have hin := Written.unmark hw
      simp only [Term.items, Operand.items, groupItems, List.append_nil] at hin
      obtain ⟨u, hu, hku, hbody⟩ := hin.unmark.word (by simp)
      obtain ⟨e', he', herase⟩ := he.replay hR (by simpa using hl) hbody hend
      refine ⟨⟨u, _, hu, hku.trans hk.symm, .help hku he', ?_⟩, ?_⟩
      · simp [Expression.erase, Term.erase, Operand.erase, eraseGroups, herase]
      · intro n hn
        rw [argName_of_kind hk (by simp)] at hn
        cases hn
  | term hop hk hx =>
      obtain ⟨⟨x', hx', herase⟩, hsame, hnext⟩ := hx.replay hC hT hR hl (Written.unmark hw) hend
      obtain ⟨u, hu, hku⟩ := hsame.faces ht
      refine ⟨⟨u, _, hu, hku, .term (by rwa [hku]) (by rwa [hku]) hx', ?_⟩, fun n => hnext t n ht⟩
      rw [Expression.erase, Expression.erase, herase]

theorem ReadsRight.replay {op : TokenKind} {power : Power} {e : Expression}
    (h : ReadsRight E op power s e s') (hl : s₂.layouts = s.layouts)
    (hw : Written e.items s₂ s₂') (hend : Agree s' s₂') :
    (∃ e', ReadsRight E op power s₂ e' s₂' ∧ e'.erase = e.erase) ∧ SameFront s s₂ := by
  cases h with
  | bare hop ht ho =>
      have hin := Written.unmark hw
      simp only [Term.items, groupItems, List.append_nil] at hin
      obtain ⟨⟨o', ho', herase⟩, hsame, -⟩ := ho.replay hC hT hR hl hin hend
      obtain ⟨u, hu, -⟩ := hsame.faces ht
      refine ⟨⟨_, .bare hop hu.front ho', ?_⟩, hsame⟩
      simp [Expression.erase, Term.erase, eraseGroups, herase]
  | full hop he =>
      obtain ⟨⟨e', he', herase⟩, hsame, -⟩ := hR.replay he hl hw hend
      exact ⟨⟨e', .full hop he', herase⟩, hsame⟩

omit hC hT hR in
/-- Operands joined by an operator are written with the operator between them. -/
theorem unmarked_joined {loc : Location} {t : Token} {lhs rhs e : Expression}
    (hj : joined? loc lhs t rhs = some e) (hs : t.IsSpelled) :
    Item.unmarked e.items =
      Item.unmarked lhs.items ++ .token t.code.1 t.code.2 :: Item.unmarked rhs.items := by
  unfold joined? at hj
  split at hj
  · rename_i a ha
    cases hj
    simp [Expression.items, AssignOp.code_ofKind? hs ha]
  · split at hj
    · rename_i b hb
      cases hj
      simp [Expression.items, BinaryOp.code_ofToken? hs hb]
    · cases hj

/-- What stands behind a first operand is written by the items `js` behind those of the operand.
It is read again behind any operand that differs in places alone. -/
theorem ReadsOperations.replay {m : Nat} {loc : Location} {lhs e : Expression}
    (h : ReadsOperations E m loc lhs s e s') :
    ∃ js, Item.unmarked e.items = Item.unmarked lhs.items ++ js ∧
      ∀ s₂ s₂', s₂.layouts = s.layouts → Written js s₂ s₂' → Agree s' s₂' →
        Agree s s₂ ∧ ∀ loc' lhs', lhs'.erase = lhs.erase →
          ∃ e', ReadsOperations E m loc' lhs' s₂ e' s₂' ∧ e'.erase = e.erase := by
  induction h with
  | stop ht hb hp =>
      refine ⟨[], (List.append_nil _).symm, ?_⟩
      intro s₂ s₂' _ hw hend
      rw [hw.of_nil] at hend ⊢
      obtain ⟨u, hu, hbu, hpu⟩ := hend.brackets ht hb
      exact ⟨hend, fun _ lhs' herase => ⟨lhs', .stop hu hbu fun p h => hp p (hpu p h), herase⟩⟩
  | @groups s s₁ s' t lhs e gs ht hb hg ho ih =>
      obtain ⟨js, hjs, ih⟩ := ih
      refine ⟨Item.unmarked (groupItems (Item.aroundGroups gs) gs) ++ js, ?_, ?_⟩
      · simp [hjs, Expression.items, Term.items, Operand.items]
      · intro s₂ s₂' hl hw hend
        obtain ⟨s₃, hwg, hrest⟩ := hw.split
        have hspan : Spans (groupItems [] gs) s s₁ := hg.spans hC
        have hl₃ := hwg.same_layouts hspan hl
        obtain ⟨hagree, hnext⟩ := ih s₃ s₂' hl₃ hrest hend
        obtain ⟨⟨gs', hgs', herases⟩, hfront⟩ := hg.replay hC hR hl hwg.unmarked hagree
        obtain ⟨u, hu, hku⟩ := hfront.same ht hb
        refine ⟨hfront, ?_⟩
        intro loc' lhs' herase
        obtain ⟨e', he', heq⟩ := hnext loc' (.term loc' (.mk (.nested lhs') gs'))
          (by simp [Expression.erase, Term.erase, Operand.erase, herase, herases])
        exact ⟨e', .groups hu (by rwa [hku]) hgs' he', heq⟩
  | @operator s s₁ s' t v p lhs rhs e₁ e ht hb hp hm hv hr hj ho ih =>
      obtain ⟨js, hjs, ih⟩ := ih
      have hlayout := isLayout_of_power hp
      have hspelled := Tape.spelled_of_front ht hlayout
      refine ⟨.token t.code.1 t.code.2 :: (Item.unmarked rhs.items ++ js), ?_, ?_⟩
      · simp [hjs, unmarked_joined hj hspelled]
      · intro s₂ s₂' hl hw hend
        obtain ⟨u, hu, ha, hrest⟩ := hw.alike rfl hlayout
        obtain ⟨s₃, hwr, hmore⟩ := hrest.split
        have hlr : s₂.past.layouts = s.past.afterLines.layouts := by simpa using hl
        have hl₃ := hwr.same_layouts (hr.spans hC) hlr
        obtain ⟨hagree, hnext⟩ := ih s₃ s₂' hl₃ hmore hend
        obtain ⟨⟨rhs', hrhs', hreq⟩, hsame⟩ := hr.replay hC hT hR hlr hwr.unmarked hagree
        obtain ⟨w, w', -, hw', -⟩ := hsame
        have hfront : SameFront s s₂ := ⟨t, u, ht, hu, ha.kind⟩
        refine ⟨hfront.agree, ?_⟩
        intro loc' lhs' herase
        obtain ⟨e₁', hj', heq₁⟩ := joined_alike ha herase hreq hj
        obtain ⟨e', he', heq⟩ := hnext loc' e₁' heq₁
        refine ⟨e', .operator hu.front (by rwa [ha.kind]) (by rwa [ha.kind]) hm hw'.beyond ?_ hj'
          he', heq⟩
        rwa [hw'.afterLines, ha.kind]

theorem ReadsLevel.replay {m : Nat} {e : Expression} (h : ReadsLevel E m s e s')
    (hl : s₂.layouts = s.layouts) (hw : Written e.items s₂ s₂') (hend : Agree s' s₂') :
    (∃ e', ReadsLevel E m s₂ e' s₂' ∧ e'.erase = e.erase) ∧ SameFront s s₂ ∧
      ∀ t n, s.front = .ok t → ArgName.ofToken? t = some n → Agree s.past s₂.past := by
  cases h with
  | @mk s₁ s' t lhs e ht hlead ho =>
      obtain ⟨js, hjs, hops⟩ := ho.replay hC hT hR
      have hfree := hw.mark_free
      rw [hjs] at hfree
      obtain ⟨s₃, hwl, hrest⟩ := hfree.split
      have hl₃ := hwl.same_layouts (hlead.spans hC ht).1 hl
      obtain ⟨hagree, hnext⟩ := hops s₃ s₂' hl₃ hrest hend
      obtain ⟨⟨u, lhs', hu, hku, hlead', herase⟩, hpast⟩ :=
        hlead.replay hC hT hR ht hl hwl.unmarked hagree
      obtain ⟨e', he', heq⟩ := hnext u.loc lhs' herase
      refine ⟨⟨e', .mk hu.front hlead' he', heq⟩, ⟨t, u, ht, hu, hku⟩, ?_⟩
      intro v n hv hn
      rw [ht] at hv
      cases hv
      exact hpast n hn

end Statement

/-- **An expression is derived, but for its places, from whatever tokens write it.** -/
theorem replays_readsExpression (levels : Nat) : Replays (ReadsExpression levels) := by
  induction levels with
  | zero => exact ⟨fun h => h.elim, fun h => h.elim⟩
  | succ levels ih =>
      have hC := covers_readsExpression levels
      have hT := tied_readsExpression levels
      constructor
      case replay =>
        intro m s s' s₂ s₂' e h
        exact ReadsLevel.replay hC hT ih h
      case starts =>
        intro m s s' e h
        cases h with
        | mk ht hl ho => exact ⟨_, ht, startsExpression_of_leading hl ht⟩

end RSource.Grammar
