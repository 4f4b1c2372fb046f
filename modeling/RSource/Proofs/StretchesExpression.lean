import RSource.Proofs.ReplayExpression
import RSource.Proofs.Stretches

/-!
# The line feeds in an expression

* `ReadsStatements.stretch` — statements in braces as a part of what the braces stand in.
* `ReadsStatements.splits` — **statements are split** where they stand.
* `ReadsOperand.stretch`, `ReadsLeading.stretch`, `ReadsOperations.stretch` and the like — one for
  each relation.
* `stretches_readsExpression` — **an expression stretches between its tapes**, by induction on the
  levels of nesting.
-/

namespace RSource.Grammar

open Item (width)

variable {E : ExprReads} {d n m : Nat} {j : Bool} {o : List Bracket} {os : List (Nat × Operand)}
  {c : Scope} {s s₁ s' : Tape} {t : Token}

/-! ## Statements -/

section Statement

variable (hE : Stretches E)

include hE

/-- In parentheses, of a header or not, and what stretches from behind them. The rest is taken along
because a line may end only behind those of a header. -/
theorem ReadsParens.stretch {e : Expression} (h : ReadsParens E s e s₁) (header : Bool)
    (hd : d ≤ o.length + 1) (hl : s.layouts = o.map Bracket.layout)
    (hrest : s₁.layouts = o.map Bracket.layout →
      Stretch d os ⟨n + 1 + width e.items + 1, header, ⟨o, false⟩⟩ s₁ m c s') :
    Stretch d (e.operands (n + 1) ++ os) ⟨n, j, ⟨o, header⟩⟩ s m c s' := by
  cases h with
  | @mk s₂ t u _ ht hk he hu hc =>
      have hopen : ∃ b : Bracket, b.layout = .free ∧
          Spot.step ⟨n, j, ⟨o, header⟩⟩ .lparen = ⟨n + 1, false, ⟨b :: o, false⟩⟩ ∧
          ∀ i j', Spot.step ⟨i, j', ⟨b :: o, false⟩⟩ .rparen = ⟨i + 1, header, ⟨o, false⟩⟩ := by
        cases header with
        | false => exact ⟨.paren, rfl, rfl, fun _ _ => rfl⟩
        | true => exact ⟨.header, rfl, rfl, fun _ _ => rfl⟩
      obtain ⟨b, hfree, hstep, hclose⟩ := hopen
      have hin := layouts_enter b hfree hl
      refine .take (r := s.past.enter .free) hl ht hk (by decide) (by decide) rfl ?_
      rw [hstep]
      refine (hE.stretch he (Nat.le_succ_of_le hd) hin _ _).seq fun j hl => ?_
      refine .take (r := s₂.past.leave) hl hu hc (by decide) (by decide) rfl ?_
      rw [hclose]
      exact hrest (layouts_leave hl)

/-- The header of an `if` or a `while`, and what stretches from behind it. -/
theorem stretch_condition {e : Expression} (ht : s.front = .ok t)
    (hk : t.kind = .ifWord ∨ t.kind = .whileWord) (h : ReadsParens E s.past e s₁)
    (hd : d ≤ o.length + 1) (hl : s.layouts = o.map Bracket.layout)
    (hrest : s₁.layouts = o.map Bracket.layout →
      Stretch d os ⟨n + 2 + width e.items + 1, true, ⟨o, false⟩⟩ s₁ m c s') :
    Stretch d (e.operands (n + 2) ++ os) ⟨n, j, ⟨o, false⟩⟩ s m c s' := by
  have hparens := h.stretch (n := n + 1) (j := false) hE true hd (s.past_layouts.trans hl) hrest
  rcases hk with hk | hk
  · exact .take hl ht hk (by decide) (by decide) rfl hparens
  · exact .take hl ht hk (by decide) (by decide) rfl hparens

theorem ReadsBehind.stretch {k : Nat} {e : Expression} (h : ReadsBehind E k s e s')
    (hd : d ≤ o.length + 1) (hl : s.layouts = o.map Bracket.layout) (n : Nat) :
    Stretch d (e.operands n) ⟨n, true, ⟨o, false⟩⟩ s (n + width e.items) ⟨o, false⟩ s' := by
  cases h with
  | mk ht he => exact .lines rfl (hE.stretch he hd hl n true)

/-- Statements in braces as a part of a statement around the braces, which has fewer brackets open
than they have: the line feeds that end them are none of that statement. -/
theorem ReadsStatements.stretch {close : TokenKind} {es : List Expression}
    (h : ReadsStatements E close s es s') (hd : d ≤ o.length)
    (hl : s.layouts = o.map Bracket.layout) (n : Nat) (j : Bool) :
    Stretch d (statementOperands n es) ⟨n, j, ⟨o, false⟩⟩ s (n + width (statementItems es))
      ⟨o, false⟩ s' := by
  induction h generalizing n j with
  | @skip s s' t es ht hk hs ih =>
      have hrest := ih (s.past_layouts.trans hl)
      have hk' : t.kind = .newline ∨ t.kind = .semicolon := by simpa [separates] using hk
      rcases hk' with hnew | hsemi
      · obtain ⟨lines, htok, hlines⟩ := Tape.tokens_of_front ht (by simp [hnew])
        have hall : ∀ l ∈ lines ++ [t], l.kind = .newline := by
          intro l hmem
          rcases List.mem_append.mp hmem with hmem | hmem
          · exact hlines l hmem
          · rw [List.mem_singleton.mp hmem]
            exact hnew
        refine .behind (r := s.past) (lines ++ [t]) (by rw [htok]; simp) ?_ ?_
        · exact .of_lines hall fun _ _ => Or.inr (Or.inr (Or.inl hd))
        · rw [Spot.run_lines _ hall]
          exact hrest n j
      · exact .take hl ht hsemi (by decide) (by decide) rfl (hrest n false)
  | stop => exact .stop hl
  | @more s s₁ s' t u e es ht hsep hc heof he hu hf hs ih =>
      rw [statementOperands]
      refine (hE.stretch he (Nat.le_succ_of_le hd) hl n j).seq fun j hl => ?_
      refine (ih hl _ j).cast ?_
      simp [statementItems]
      omega

end Statement

/-- **Statements are split** where they stand, in braces or outside all brackets. -/
theorem ReadsStatements.splits {close : TokenKind} {es : List Expression} (hE : Stretches E)
    (hC : Covers E) (hT : Tied E) (h : ReadsStatements E close s es s')
    (hc : close = .rbrace ∧ o ≠ [] ∨ close = .eof ∧ o = []) (hl : s.layouts = o.map Bracket.layout)
    (hf : Scope.isFree ⟨o, false⟩ = false) : Splits ⟨o, false⟩ es s.tokens := by
  have hlined : ∀ {r : Tape}, r.layouts = o.map Bracket.layout → r.isFree = false := by
    intro r hr
    rw [Tape.isFree, hr]
    exact hf
  induction h with
  | @skip s s' t es ht hk hs ih =>
      have hk' : t.kind = .newline ∨ t.kind = .semicolon := by simpa [separates] using hk
      have hne : t.kind ≠ .eof := by rcases hk' with hk | hk <;> simp [hk]
      rw [Tape.tokens_of_lined (hlined hl) ht hne]
      exact .gap hk' (ih (s.past_layouts.trans hl))
  | @stop s t ht hk hsep =>
      rcases hc with ⟨hc, ho⟩ | ⟨hc, ho⟩
      · have hbrace := hk.trans hc
        rw [Tape.tokens_of_lined (hlined hl) ht (by simp [hbrace])]
        exact .closing ho hbrace
      · cases htok : s.tokens with
        | nil => exact .ending ho
        | cons u us =>
            rw [Tape.front_of_lined (hlined hl), Tape.head_cons htok] at ht
            cases ht
            exact absurd (hk.trans hc) (s.spelled _ (by simp [htok])).ne_eof
  | @more s s₁ s' t u e es ht hsep hnc heof he hu hm hs ih =>
      obtain ⟨v, hv, hcode⟩ := hC.atCode he
      rw [ht] at hv
      cases hv
      have htok := Tape.tokens_of_lined (hlined hl) ht heof
      have hspan := hC.spans he
      have hl₁ : s₁.layouts = o.map Bracket.layout := hspan.layouts.trans hl
      obtain ⟨ts, hts, hfit⟩ := hspan.reads
      -- The tokens that fit the statement and those whose line feeds may stand there are the same.
      obtain ⟨ts', hts', hflow, -, -⟩ := (hE.stretch he (Nat.le_refl _) hl 0 false).reads
      obtain rfl : ts = ts' := List.append_cancel_right (hts.symm.trans hts')
      have hhead : ∃ w ∈ ts.head?, w.kind.isLayout = false := by
        cases ts with
        | nil => exact absurd rfl (hfit.significant_ne_nil (codes_items e hspan))
        | cons w ws =>
            obtain ⟨rfl, -⟩ := List.cons.inj (htok.symm.trans hts)
            exact ⟨t, rfl, hcode⟩
      have hspelled : ∀ w ∈ ts, w.IsSpelled := by
        intro w hw
        exact s.spelled w (by rw [hts]; exact List.mem_append_left _ hw)
      have hquiet : ∀ w ∈ s₁.tokens.head?,
          Brackets.ofKind? w.kind = none ∧ Power.ofKind? w.kind = none := by
        intro w hw
        obtain ⟨ws, hws⟩ := List.head?_eq_some_iff.mp hw
        have hfront := Tape.front_of_lined (hlined hl₁)
        rw [Tape.head_cons hws] at hfront
        exact isQuiet_of_ends (hT.ends he) hfront
      rw [hts]
      exact .untrimmed hfit hhead hspelled (hflow.unbroken hf) hquiet (ih hl₁)

/-! ## Operands -/

section Operand

variable (hE : Stretches E) (hC : Covers E) (hT : Tied E)

include hE hC hT

/-- The statements of a block are split behind its brace. -/
theorem splitAt_block {es : List Expression} (ht : s.front = .ok t) (hk : t.kind = .lbrace)
    (hs : ReadsStatements E .rbrace (s.past.enter .lined) es s')
    (hl : s.layouts = o.map Bracket.layout) (n : Nat) (j : Bool) :
    SplitAt ⟨n, j, ⟨o, false⟩⟩ s (n + 1) es := by
  have hsplit := hs.splits hE hC hT (Or.inl ⟨rfl, by simp⟩) (layouts_enter .brace rfl hl) rfl
  obtain ⟨lines, htok, hlines⟩ := Tape.tokens_of_front ht (by simp [hk])
  have hrun : Spot.run ⟨n, j, ⟨o, false⟩⟩ (lines ++ [t]) =
      ⟨n + 1, false, ⟨.brace :: o, false⟩⟩ := by
    rw [Spot.run_append, Spot.run_lines _ hlines, Spot.run_cons, hk]
    rfl
  refine ⟨lines ++ [t], s.past.tokens, by rw [htok]; simp, ?_, ?_, ?_⟩
  · rw [hrun]
  · rw [hrun]
    rfl
  · rw [hrun]
    exact hsplit

theorem ReadsOperand.stretch {x : Operand} (h : ReadsOperand E s x s') (hd : d ≤ o.length + 1)
    (hl : s.layouts = o.map Bracket.layout) (n : Nat) (j : Bool) :
    Stretch d (x.operands n) ⟨n, j, ⟨o, false⟩⟩ s (n + width x.items) ⟨o, false⟩ s' := by
  cases h with
  | @constant t c ht hc =>
      have hk : (ConstantKind.ofKind? t.kind).isSome = true := by
        unfold Constant.ofToken? at hc
        split at hc
        · cases hc
        · rename_i hkind
          rw [hkind]
          rfl
      simp only [Operand.operands, Operand.items]
      refine .record ?_ (by simp)
      exact stretch_token hl ht (isLayout_of_constant hc)
        (step_leaf (Or.inr (Or.inr (Or.inr (Or.inr hk))))).1
  | @identifier t ht hk =>
      simp only [Operand.operands, Operand.items]
      refine .record ?_ (by simp)
      have hlay : t.kind.isLayout = false := by
        rcases hk with hk | hk | hk | hk <;> rw [hk] <;> rfl
      have hstep : Scope.step ⟨o, false⟩ t.kind = ⟨o, false⟩ := by
        rcases hk with hk | hk | hk | hk <;> rw [hk] <;> rfl
      exact stretch_token hl ht hlay hstep
  | paren he =>
      simp only [Operand.operands]
      refine .record ?_ (by simp)
      rw [← List.append_nil (Expression.operands _ _)]
      refine he.stretch hE false hd hl fun hl => ?_
      refine (Stretch.stop hl).cast ?_
      simp [Operand.items]
      omega
  | @block s₁ t u es ht hk hs hu hc =>
      have hin := layouts_enter .brace rfl hl
      simp only [Operand.operands]
      refine .record ?_ ?_
      · rw [← List.append_nil (statementOperands (n + 1) es)]
        refine .take (r := s.past.enter .lined) hl ht hk (by decide) (by decide) rfl ?_
        refine (hs.stretch hE hd hin _ _).seq fun j hl => ?_
        refine .take (r := s₁.past.leave) hl hu hc (by decide) (by decide) rfl ?_
        refine (Stretch.stop (layouts_leave hl)).cast ?_
        show n + 1 + width (statementItems es) + 1 = _
        simp [Operand.items]
        omega
      · intro loc es' close heq
        cases heq
        exact splitAt_block hE hC hT ht hk hs hl n j
  | @function s₁ s' t u v fs e ht hk hu ho hf hv hc he =>
      have hpast := s.past_layouts.trans hl
      have hin := layouts_enter .header rfl hpast
      simp only [Operand.operands]
      refine .record ?_ (by simp)
      refine .take (r := s.past) hl ht hk (by decide) (by decide) rfl ?_
      refine .take (r := s.past.past.enter .free) hpast hu ho (by decide) (by decide) rfl ?_
      refine (hf.stretch hE (Nat.le_succ_of_le hd) hin _ _).seq fun j hl => ?_
      refine .take (r := s₁.past.leave) hl hv hc (by decide) (by decide) rfl ?_
      refine (he.stretch hE hd (layouts_leave hl) _).cast ?_
      simp [Operand.items]
      omega
  | ifThen ht hk hp he hx hne =>
      simp only [Operand.operands]
      refine .record ?_ (by simp)
      refine stretch_condition hE ht (Or.inl hk) hp hd hl fun hl => ?_
      refine (he.stretch hE hd hl _).cast ?_
      simp [Operand.items]
      omega
  | @ifElse s₁ s₂ s' t x y c e q ht hk hp he hx hj hy hi ho =>
      simp only [Operand.operands]
      refine .record ?_ (by simp)
      refine stretch_condition hE ht (Or.inl hk) hp hd hl fun hl => ?_
      refine (he.stretch hE hd hl _).seq fun j hl => ?_
      refine .otherwise hd hl hx hj hy hi ?_
      have hout : s₂.afterLines.past.layouts = o.map Bracket.layout := by
        rw [Tape.past_layouts, Tape.afterLines_layouts, hl]
        rfl
      refine (ho.stretch hE hd hout _).cast ?_
      simp [Operand.items]
      omega
  | @forLoop s₁ s₂ s' t u v w i q e ht hk hu ho hi hv hin hq hw hc he =>
      have hpast := s.past_layouts.trans hl
      have hhead := layouts_enter .header rfl hpast
      simp only [Operand.operands]
      refine .record ?_ (by simp)
      rw [← List.nil_append (Expression.operands _ q), List.append_assoc]
      refine .take (r := s.past) hl ht hk (by decide) (by decide) rfl ?_
      refine .take (r := s.past.past.enter .free) hpast hu ho (by decide) (by decide) rfl ?_
      refine (hi.stretch hhead _ _).seq fun j hl => ?_
      refine stretch_past hl hv (by rw [hin]; rfl) (by rw [hin]; rfl) fun hl => ?_
      refine (hE.stretch hq (Nat.le_succ_of_le hd) hl _ _).seq fun j hl => ?_
      refine .take (r := s₂.past.leave) hl hw hc (by decide) (by decide) rfl ?_
      refine (he.stretch hE hd (layouts_leave hl) _).cast ?_
      simp [Operand.items]
      omega
  | whileLoop ht hk hp he =>
      simp only [Operand.operands]
      refine .record ?_ (by simp)
      refine stretch_condition hE ht (Or.inr hk) hp hd hl fun hl => ?_
      refine (he.stretch hE hd hl _).cast ?_
      simp [Operand.items]
      omega
  | repeatLoop ht hk he =>
      simp only [Operand.operands]
      refine .record ?_ (by simp)
      refine .take (r := s.past) hl ht hk (by decide) (by decide) rfl ?_
      refine (he.stretch hE hd (s.past_layouts.trans hl) _).cast ?_
      simp [Operand.items]
      omega

theorem ReadsTerm.stretch {x : Term} (h : ReadsTerm E s x s') (hd : d ≤ o.length + 1)
    (hl : s.layouts = o.map Bracket.layout) (n : Nat) (j : Bool) :
    Stretch d (x.operands n) ⟨n, j, ⟨o, false⟩⟩ s (n + width x.items) ⟨o, false⟩ s' := by
  cases h with
  | @mk s₁ s' y gs ho hg =>
      rw [Term.operands]
      refine (ho.stretch hE hC hT hd hl n j).seq fun j hl => ?_
      refine (hg.stretch hE hd hl (Item.aroundGroups gs) _ j).cast ?_
      rw [Term.items, Item.width_append, Nat.add_assoc]

/-! ## Operators -/

theorem ReadsLeading.stretch {e : Expression} (h : ReadsLeading E t s e s')
    (ht : s.front = .ok t) (hd : d ≤ o.length + 1) (hl : s.layouts = o.map Bracket.layout)
    (n : Nat) (j : Bool) :
    Stretch d (e.operands n) ⟨n, j, ⟨o, false⟩⟩ s (n + width e.items) ⟨o, false⟩ s' := by
  cases h with
  | @unary s' op e hop he =>
      simp only [Expression.operands, Term.operands_ofExpression]
      refine stretch_past hl ht (isLayout_of_unary hop) (Scope.step_unary hop) fun hl => ?_
      rw [continues_unary hop]
      refine (he.stretch hE hd hl _).cast ?_
      simp [Expression.items]
      omega
  | help hk he =>
      simp only [Expression.operands, Term.operands, Operand.operands, groupOperands,
        List.append_nil]
      refine .record ?_ (by simp)
      refine stretch_past hl ht (by rw [hk]; rfl) (by rw [hk]; rfl) fun hl => ?_
      rw [hk]
      refine (he.stretch hE hd hl _).cast ?_
      simp [Expression.items, Term.items, Operand.items, groupItems]
      omega
  | term hop hk hx =>
      rw [Expression.operands]
      exact hx.stretch hE hC hT hd hl n j

theorem ReadsRight.stretch {op : TokenKind} {power : Power} {e : Expression}
    (h : ReadsRight E op power s e s') (hd : d ≤ o.length + 1)
    (hl : s.layouts = o.map Bracket.layout) (n : Nat) (j : Bool) :
    Stretch d (e.operands n) ⟨n, j, ⟨o, false⟩⟩ s (n + width e.items) ⟨o, false⟩ s' := by
  cases h with
  | bare hop ht ho =>
      simp only [Expression.operands, Term.operands, groupOperands, List.append_nil]
      refine (ho.stretch hE hC hT hd hl n j).cast ?_
      simp [Expression.items, Term.items, groupItems]
  | full hop he => exact hE.stretch he hd hl n j

omit hE hC hT in
/-- Two operands joined by the operator between them. -/
theorem operands_joined {loc : Location} {lhs rhs e : Expression}
    (hj : joined? loc lhs t rhs = some e) (n : Nat) :
    e.operands n = lhs.operands n ++ rhs.operands (n + width lhs.items + 1) ∧
      width e.items = width lhs.items + 1 + width rhs.items := by
  unfold joined? at hj
  split at hj
  · cases hj
    refine ⟨by simp [Expression.operands], ?_⟩
    simp [Expression.items]
    omega
  · split at hj
    · cases hj
      refine ⟨by simp [Expression.operands], ?_⟩
      simp [Expression.items]
      omega
    · cases hj

/-- Behind a first operand, the whole stretches from the start of that operand. -/
theorem ReadsOperations.stretch {k : Nat} {loc : Location} {lhs e : Expression} {s₀ : Tape}
    (h : ReadsOperations E k loc lhs s e s') (hd : d ≤ o.length + 1)
    (hlhs : Stretch d (lhs.operands n) ⟨n, j, ⟨o, false⟩⟩ s₀ (n + width lhs.items) ⟨o, false⟩ s) :
    Stretch d (e.operands n) ⟨n, j, ⟨o, false⟩⟩ s₀ (n + width e.items) ⟨o, false⟩ s' := by
  induction h with
  | stop => exact hlhs
  | @groups s s₁ s' t lhs e gs ht hb hg ho ih =>
      apply ih
      simp only [Expression.operands, Term.operands, Operand.operands]
      refine hlhs.seq fun j hl => ?_
      refine (hg.stretch hE hd hl (Item.aroundGroups gs) _ j).cast ?_
      simp [Expression.items, Term.items, Operand.items, Nat.add_assoc]
  | @operator s s₁ s' t u p lhs rhs e₁ e ht hb hp hm hu hr hj ho ih =>
      obtain ⟨hops, hwidth⟩ := operands_joined hj n
      apply ih
      rw [hops, hwidth]
      refine hlhs.seq fun j hl => ?_
      refine stretch_past hl ht (isLayout_of_power hp) (Scope.step_power hp) fun hl => ?_
      rw [continues_power hp]
      refine .lines rfl ((hr.stretch hE hC hT hd hl _ true).cast ?_)
      omega

theorem stretches_readsLevel {k : Nat} {e : Expression} (h : ReadsLevel E k s e s')
    (hd : d ≤ o.length + 1) (hl : s.layouts = o.map Bracket.layout) (n : Nat) (j : Bool) :
    Stretch d (e.operands n) ⟨n, j, ⟨o, false⟩⟩ s (n + width e.items) ⟨o, false⟩ s' := by
  cases h with
  | mk ht hlead hops => exact hops.stretch hE hC hT hd (hlead.stretch hE hC hT ht hd hl n j)

end Operand

/-- **An expression stretches between its tapes.** -/
theorem stretches_readsExpression (levels : Nat) : Stretches (ReadsExpression levels) := by
  induction levels with
  | zero => exact ⟨fun h => h.elim⟩
  | succ levels ih =>
      refine ⟨fun h hd hl n j => ?_⟩
      exact stretches_readsLevel ih (covers_readsExpression levels) (tied_readsExpression levels)
        h hd hl n j

end RSource.Grammar
