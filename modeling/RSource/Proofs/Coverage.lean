import RSource.Proofs.Derivation
import RSource.Proofs.Spans

/-!
# What a derivation covers

A tree is written as the tokens it was derived from.

* `Covers` — what is asked of the relation of an expression.
* `ReadsArgument.spans`, `ReadsGroups.spans`, `ReadsStatements.spans` and the like — one for each
  relation.
* `ReadsOperations.spans` — behind a first operand: the whole is written from its start on.
* `covers_readsExpression` — **an expression is written as the tokens between its tapes**, by
  induction on the levels of nesting.
-/

namespace RSource.Grammar

/-! ## Kinds of tokens -/

theorem isLayout_of_argName {t : Token} {n : ArgName} (h : ArgName.ofToken? t = some n) :
    t.kind.isLayout = false := by
  unfold ArgName.ofToken? at h
  generalize t.kind = k at h
  cases k <;> first | rfl | cases h

theorem isLayout_of_constant {t : Token} {c : Constant} (h : Constant.ofToken? t = some c) :
    t.kind.isLayout = false := by
  unfold Constant.ofToken? at h
  generalize t.kind = k at h
  cases k <;> first | rfl | cases h

theorem isLayout_of_power {k : TokenKind} {p : Power} (h : Power.ofKind? k = some p) :
    k.isLayout = false := by
  cases k <;> first | rfl | cases h

theorem isLayout_of_unary {k : TokenKind} {op : UnaryOp} (h : UnaryOp.ofKind? k = some op) :
    k.isLayout = false := by
  cases k <;> first | rfl | cases h

theorem opening_of_brackets {k : TokenKind} {kind : Brackets} (h : Brackets.ofKind? k = some kind) :
    k = kind.opening := by
  cases k <;> cases h <;> rfl

theorem isWord_opening (kind : Brackets) : kind.opening.isWord = true := by cases kind <;> rfl

theorem isLayout_closing (kind : Brackets) : kind.closing.isLayout = false := by cases kind <;> rfl

/-! ## Lists in brackets -/

/-- What is asked of the relation of an expression: it is written as the tokens between its tapes,
the first of which is the next one shown. -/
structure Covers (E : ExprReads) : Prop where
  spans : ∀ {m : Nat} {s s' : Tape} {e : Expression}, E m s e s' → Spans e.items s s'
  atCode : ∀ {m : Nat} {s s' : Tape} {e : Expression}, E m s e s' → s.AtCode

theorem codes_items (e : Expression) {s s' : Tape} (h : Spans e.items s s') :
    Item.codes e.items ≠ [] := by
  obtain ⟨is, his⟩ := e.items_mark
  obtain ⟨seg, -, hf⟩ := h.reads
  intro hc
  have hcodes := hf.codes
  rw [hc, eq_comm, List.map_eq_nil_iff] at hcodes
  rw [hcodes, his] at hf
  obtain ⟨t, us, hnil, -⟩ := hf.loc_of_mark
  cases hnil

theorem isLayout_of_name {t : Token} (hk : t.kind = .ident ∨ t.kind = .quotedIdent) :
    t.kind.isLayout = false := by
  rcases hk with hk | hk <;> rw [hk] <;> rfl

theorem ReadsName.spans {s s' : Tape} {i : Identifier} (h : ReadsName s i s') :
    Spans i.items s s' := by
  cases h with
  | mk ht hk =>
      have hl := isLayout_of_name hk
      refine .past ht hl (Identifier.fits_ofToken (Tape.spelled_of_front ht hl) ?_)
      rcases hk with hk | hk
      · exact Or.inl hk
      · exact Or.inr (Or.inl hk)

variable {E : ExprReads} {s s' : Tape}

section Bracketed

variable {close : TokenKind} (hE : Covers E)

include hE

theorem ReadsArgument.spans {a : Argument} (h : ReadsArgument E close s a s') :
    Spans a.items s s' := by
  cases h with
  | value ht hn he => exact hE.spans he
  | name ht hn hu hk hv hend =>
      have hl := isLayout_of_argName hn
      have hname := Spans.past ht hl (ArgName.fits_ofToken? (Tape.spelled_of_front ht hl) hn)
      exact hname.append (.word hu hk rfl)
  | named ht hn hu hk hv hend he =>
      have hl := isLayout_of_argName hn
      have hname := Spans.past ht hl (ArgName.fits_ofToken? (Tape.spelled_of_front ht hl) hn)
      exact hname.append ((Spans.word hu hk rfl).append (hE.spans he))

theorem ReadsArgument.atCode {a : Argument} (h : ReadsArgument E close s a s') : s.AtCode := by
  cases h with
  | value ht hn he => exact hE.atCode he
  | name ht hn | named ht hn => exact ⟨_, ht, isLayout_of_argName hn⟩

theorem ReadsSlot.spans {a : Argument} (h : ReadsSlot E close s a s') : Spans a.items s s' := by
  cases h with
  | empty => exact .refl s
  | filled ht hk ha => exact ha.spans hE

theorem ReadsSlot.atCode {a : Argument} (h : ReadsSlot E close s a s') : s.AtCode := by
  cases h with
  | empty ht hk => exact ⟨_, ht, by rw [hk]; rfl⟩
  | filled ht hk ha => exact ha.atCode hE

/-- Slots behind what stands before the first of them. -/
theorem ReadsSlots.spans {as : List Argument} {before : List Item} {s₀ : Tape}
    (h : ReadsSlots E close s as s') (hb : Spans before s₀ s) :
    Spans (argumentItems before as) s₀ s' := by
  induction h generalizing before s₀ with
  | last ha hu hc hk =>
      simpa [argumentItems] using hb.append (ha.spans hE)
  | trailing ha hu hc hv hk =>
      have hcomma := Spans.word hu hc rfl
      simpa [argumentItems, Argument.items] using (hb.append (ha.spans hE)).append hcomma
  | more ha hu hc hv hk hs ih =>
      exact (hb.append (ha.spans hE)).append (ih (Spans.word hu hc rfl))

theorem ReadsSlots.atCode {as : List Argument} (h : ReadsSlots E close s as s') : s.AtCode := by
  cases h with
  | last ha | trailing ha | more ha => exact ha.atCode hE

theorem ReadsArguments.spans {as : List Argument} (h : ReadsArguments E close s as s') :
    Spans (argumentItems [] as) s s' := by
  cases h with
  | none => exact .refl s
  | some ht hk hs => exact hs.spans hE (.refl s)

theorem ReadsArguments.atCode {as : List Argument} (h : ReadsArguments E close s as s')
    (hc : close.isLayout = false) : s.AtCode := by
  cases h with
  | none ht hk => exact ⟨_, ht, by rw [hk]; exact hc⟩
  | some ht hk hs => exact hs.atCode hE

omit hE in
theorem ReadsClosing.spans {kind : Brackets} (h : ReadsClosing kind s s') :
    Spans [.close kind] s s' := by
  cases h with
  | single ht hk hne =>
      cases kind with
      | call | index => exact .word ht hk rfl
      | element => exact absurd rfl hne
  | double ht hk hu hj ho =>
      refine ((Spans.word ht hk rfl).append (Spans.word hu hj rfl)).imp fun ts hf => ?_
      cases hf with
      | token ht hf =>
          cases hf with
          | token hu hf => exact .closeElement ht hu hf

theorem ReadsGroup.spans {g : Group} {around : List Label} (h : ReadsGroup E s g s') :
    Spans (g.items around) s s' := by
  cases h with
  | @mk s₁ s₂ t u kind as ht hk hu ha hc =>
      have hopen := Spans.word ht (opening_of_brackets hk) (isWord_opening kind)
      have hin := (ha.spans hE).append hc.spans
      have hne : Item.codes (argumentItems [] as ++ [.close kind]) ≠ [] := by
        simp [Item.codes_close]
      obtain ⟨v, hv, hl⟩ := ha.atCode hE (isLayout_closing kind)
      rw [hu] at hv
      cases hv
      exact hopen.append (hin.marks hne hu hl).leave

theorem ReadsGroups.spans {gs : List Group} {around : List Label} (h : ReadsGroups E s gs s') :
    Spans (groupItems around gs) s s' := by
  induction h generalizing around with
  | stop => exact .refl _
  | more hg hs ih => exact (hg.spans hE).append ih

theorem ReadsFormal.spans {f : Formal} (h : ReadsFormal E s f s') : Spans f.items s s' := by
  cases h with
  | required hi => exact hi.spans
  | defaulted hi ht hk he => exact hi.spans.append ((Spans.word ht hk rfl).append (hE.spans he))

/-- Parameters behind what stands before the first of them. -/
theorem ReadsSomeFormals.spans {fs : List Formal} {before : List Item} {s₀ : Tape}
    (h : ReadsSomeFormals E s fs s') (hb : Spans before s₀ s) :
    Spans (formalItems before fs) s₀ s' := by
  induction h generalizing before s₀ with
  | last hf ht hk => simpa [formalItems] using hb.append (hf.spans hE)
  | more hf ht hk hs ih => exact (hb.append (hf.spans hE)).append (ih (Spans.word ht hk rfl))

omit hE in
/-- The node around the parameters takes the place of the first. -/
theorem spans_formals {fs : List Formal} (h : Spans (formalItems [] fs) s s') :
    Spans (Item.formals fs ++ formalItems [] fs) s s' := by
  cases fs with
  | nil => exact h
  | cons f fs => cases f <;> exact h.remark

theorem ReadsFormals.spans {fs : List Formal} (h : ReadsFormals E s fs s') :
    Spans (Item.formals fs ++ formalItems [] fs) s s' := by
  cases h with
  | none => exact .refl s
  | some ht hk hs => exact spans_formals (hs.spans hE (.refl s))

end Bracketed

/-! ## Statements and operands -/

/-- A word with the node that takes its place. -/
theorem spans_keyword {label : Label} {is : List Item} {t : Token} {k : TokenKind}
    (ht : s.front = .ok t) (hk : t.kind = k) (hw : k.isWord = true) (h : Spans is s.past s') :
    Spans (.mark label t.loc :: .word k :: is) s s' := by
  have hl : t.kind.isLayout = false := by rw [hk]; exact TokenKind.isLayout_of_isWord hw
  exact ((Spans.word ht hk hw).append h).mark (by simp [Item.word, Item.codes]) ht hl

/-- The list of the statements in braces takes the place of the first, or of the closing brace. -/
theorem spans_block {es : List Expression} {u : Token} (h : Spans (statementItems es) s s')
    (hu : s'.front = .ok u) (hk : u.kind = .rbrace) :
    Spans (.mark .expressionList (statementsLoc es u.loc) ::
      (Item.blockBreak es ++ statementItems es ++ [.word .rbrace])) s s'.past := by
  have hclose := Spans.word hu hk rfl
  cases es with
  | nil =>
      refine h.append (hclose.mark ?_ hu (by rw [hk]; rfl))
      simp [Item.word, Item.codes]
  | cons e es =>
      obtain ⟨is, his⟩ := e.items_mark
      have hall := h.append hclose
      simp only [statementItems, statementsLoc, Item.blockBreak, his, List.cons_append] at hall ⊢
      generalize e.loc = loc at hall ⊢
      exact hall.imp fun _ hf => by
        cases hf with
        | mark hf => exact .mark (.lineBreak (.mark hf))

section Statement

variable (hE : Covers E)

include hE

theorem ReadsStatements.spans {close : TokenKind} {es : List Expression}
    (h : ReadsStatements E close s es s') : Spans (statementItems es) s s' := by
  induction h with
  | @skip s s' t es ht hk hs ih =>
      have hk' : t.kind = .newline ∨ t.kind = .semicolon := by simpa [separates] using hk
      have hl : t.kind.isLayout = true := by rcases hk' with hk | hk <;> rw [hk] <;> rfl
      have hne : t.kind ≠ .eof := by rcases hk' with hk | hk <;> rw [hk] <;> simp
      exact (Spans.layout ht hl hne).append ih
  | stop => exact .refl _
  | more ht hsep hc heof he hu hf hs ih =>
      exact (hE.spans he).append ((Spans.lineBreak _).append ih)

theorem ReadsParens.spans {e : Expression} (h : ReadsParens E s e s') :
    Spans (.word .lparen :: (e.items ++ [.word .rparen])) s s' := by
  cases h with
  | mk ht hk he hu hc =>
      exact (Spans.word ht hk rfl).append ((hE.spans he).append (Spans.word hu hc rfl)).leave

/-- A condition takes the place of its expression. -/
theorem ReadsParens.spans_condition {e : Expression} (h : ReadsParens E s e s') :
    Spans (.word .lparen :: .mark .condition e.loc :: (e.items ++ [.word .rparen])) s s' := by
  cases h with
  | mk ht hk he hu hc =>
      have hin := (hE.spans he).append (Spans.word hu hc rfl)
      exact (Spans.word ht hk rfl).append hin.around.leave

theorem ReadsBehind.spans {m : Nat} {e : Expression} (h : ReadsBehind E m s e s') :
    Spans e.items s s' := by
  cases h with
  | mk ht he => exact (hE.spans he).behind_lines

theorem ReadsOperand.spans {o : Operand} (h : ReadsOperand E s o s') : Spans o.items s s' := by
  cases h with
  | constant ht hc =>
      have hl := isLayout_of_constant hc
      exact .past ht hl (Constant.fits_ofToken? (Tape.spelled_of_front ht hl) hc)
  | @identifier t ht hk =>
      have hl : t.kind.isLayout = false := by
        rcases hk with hk | hk | hk | hk <;> rw [hk] <;> rfl
      exact .past ht hl (Identifier.fits_ofToken (Tape.spelled_of_front ht hl) hk)
  | paren he => exact he.spans hE
  | block ht hk hs hu hc => exact spans_keyword ht hk rfl (spans_block (hs.spans hE) hu hc).leave
  | function ht hk hu ho hf hv hc he =>
      have hin := ((hf.spans hE).append (Spans.word hv hc rfl)).leave
      have hbody := he.spans hE
      have hall : Spans (.mark .function _ :: _) s s' := spans_keyword ht hk rfl
        (((Spans.word hu ho rfl).append hin).append hbody)
      simpa [Operand.items] using hall
  | ifThen ht hk hp he hx hne =>
      have hall : Spans (.mark .ifForm _ :: _) s s' := spans_keyword ht hk rfl
        ((hp.spans_condition hE).append (he.spans hE))
      simpa [Operand.items] using hall
  | ifElse ht hk hp he hx hj hy hi ho =>
      have helse := ((Spans.word hy hi rfl).append (ho.spans hE)).behind_lines
      have hall : Spans (.mark .ifForm _ :: _) s s' := spans_keyword ht hk rfl
        ((hp.spans_condition hE).append ((he.spans hE).append helse))
      simpa [Operand.items] using hall
  | forLoop ht hk hu ho hi hv hin hq hw hc he =>
      have hhead := (hi.spans.append ((Spans.word hv hin rfl).append
        ((hE.spans hq).append (Spans.word hw hc rfl)))).leave
      have hall : Spans (.mark .forLoop _ :: _) s s' := spans_keyword ht hk rfl
        (((Spans.word hu ho rfl).append hhead).append (he.spans hE))
      simpa [Operand.items] using hall
  | whileLoop ht hk hp he =>
      have hall : Spans (.mark .whileLoop _ :: _) s s' := spans_keyword ht hk rfl
        ((hp.spans_condition hE).append (he.spans hE))
      simpa [Operand.items] using hall
  | repeatLoop ht hk he => exact spans_keyword ht hk rfl (he.spans hE)

omit hE in
theorem ReadsOperand.atCode {o : Operand} (h : ReadsOperand E s o s') : s.AtCode := by
  cases h with
  | constant ht hc => exact ⟨_, ht, isLayout_of_constant hc⟩
  | identifier ht hk =>
      refine ⟨_, ht, ?_⟩
      rcases hk with hk | hk | hk | hk <;> rw [hk] <;> rfl
  | paren he =>
      cases he with
      | mk ht hk => exact ⟨_, ht, by rw [hk]; rfl⟩
  | block ht hk | function ht hk | ifThen ht hk | ifElse ht hk | forLoop ht hk | whileLoop ht hk
  | repeatLoop ht hk => exact ⟨_, ht, by rw [hk]; rfl⟩

omit hE in
theorem ReadsOperand.codes_ne_nil {o : Operand} (h : ReadsOperand E s o s') :
    Item.codes o.items ≠ [] := by
  cases h <;> simp [Operand.items, Identifier.items, Constant.items, Item.word, Item.codes]

theorem ReadsTerm.spans {x : Term} (h : ReadsTerm E s x s') : Spans x.items s s' := by
  cases h with
  | mk ho hg => exact (ho.spans hE).append (hg.spans hE)

omit hE in
theorem ReadsTerm.codes_ne_nil {x : Term} (h : ReadsTerm E s x s') : Item.codes x.items ≠ [] := by
  cases h with
  | mk ho hg => simp [Term.items, ho.codes_ne_nil]

/-! ## Operators -/

omit hE in
theorem ReadsLeading.atCode {t : Token} {e : Expression} (h : ReadsLeading E t s e s')
    (ht : s.front = .ok t) : t.kind.isLayout = false := by
  cases h with
  | unary hop => exact isLayout_of_unary hop
  | help hk => rw [hk]; rfl
  | term hop hk hx =>
      cases hx with
      | mk ho hg =>
          obtain ⟨u, hu, hl⟩ := ho.atCode
          rw [ht] at hu
          cases hu
          exact hl

theorem ReadsLeading.spans {t : Token} {e : Expression} (h : ReadsLeading E t s e s')
    (ht : s.front = .ok t) : Spans e.items s s' ∧ e.loc = t.loc := by
  have hl := h.atCode ht
  have hs := Tape.spelled_of_front ht hl
  cases h with
  | unary hop he =>
      have hin := (Spans.past ht hl (.token (UnaryOp.code_ofKind? hs hop) .nil)).append
        (he.spans hE).ofExpression.unmark
      exact ⟨hin.mark (by simp [Item.codes]) ht hl, rfl⟩
  | help hk he =>
      have hin : Spans (.mark .help _ :: _) s s' := spans_keyword ht hk rfl (he.spans hE)
      have hall : Spans (.mark .expression _ :: _) s s' :=
        hin.mark (by simp [Item.word, Item.codes]) ht hl
      exact ⟨by simpa [Expression.items, Term.items, Operand.items, groupItems] using hall, rfl⟩
  | term hop hk hx => exact ⟨(hx.spans hE).mark hx.codes_ne_nil ht hl, rfl⟩

theorem ReadsRight.spans {op : TokenKind} {power : Power} {e : Expression}
    (h : ReadsRight E op power s e s') : Spans e.items s s' := by
  cases h with
  | bare hop ht ho =>
      obtain ⟨u, hu, hl⟩ := ho.atCode
      rw [ht] at hu
      cases hu
      have hall : Spans (.mark .expression _ :: _) s s' :=
        (ho.spans hE).mark ho.codes_ne_nil ht hl
      simpa [Expression.items, Term.items, groupItems] using hall
  | full hop he => exact hE.spans he

omit hE in
/-- Two operands joined by the operator between them. -/
theorem spans_joined {loc : Location} {t : Token} {lhs rhs e : Expression} {s₀ : Tape}
    (hj : joined? loc lhs t rhs = some e) (hl : Spans lhs.items s₀ s) (hloc : lhs.loc = loc)
    (ht : s.front = .ok t) (hk : t.kind.isLayout = false) (hr : Spans rhs.items s.past s') :
    Spans e.items s₀ s' ∧ e.loc = loc := by
  have hs := Tape.spelled_of_front ht hk
  have hleft := hl.ofExpression
  rw [hloc] at hleft
  unfold joined? at hj
  split at hj
  · rename_i a ha
    cases hj
    have hop : Fits [.mark .assignment t.loc, .token a.kind a.spelling] [t] :=
      .mark (.token (AssignOp.code_ofKind? hs ha) .nil)
    exact ⟨hleft.append ((Spans.past ht hk hop).append hr), rfl⟩
  · split at hj
    · rename_i b hb
      cases hj
      have hop : Fits [.token b.kind b.spelling] [t] := .token (BinaryOp.code_ofToken? hs hb) .nil
      exact ⟨hleft.append ((Spans.past ht hk hop).append hr.ofExpression.unmark), rfl⟩
    · cases hj

/-- Behind a first operand, which starts at `s₀`, the whole is written from there on. -/
theorem ReadsOperations.spans {m : Nat} {loc : Location} {lhs e : Expression} {s₀ : Tape}
    (h : ReadsOperations E m loc lhs s e s') (hl : Spans lhs.items s₀ s) (hloc : lhs.loc = loc) :
    Spans e.items s₀ s' ∧ e.loc = loc := by
  induction h with
  | stop => exact ⟨hl, hloc⟩
  | @groups s s₁ s' t lhs e gs ht hb hg ho ih =>
      refine ih ?_ rfl
      have hgroups : Spans (groupItems (Item.aroundGroups gs) gs) s s₁ := hg.spans hE
      have hall : Spans (.mark .expression _ :: _) s₀ s₁ := (hl.append hgroups).around
      rw [hloc] at hall
      exact hall
  | operator ht hb hp hm hu hr hj ho ih =>
      obtain ⟨hall, hstart⟩ := spans_joined hj hl hloc ht (isLayout_of_power hp)
        (hr.spans hE).behind_lines
      exact ih hall hstart

theorem covers_readsLevel {m : Nat} {e : Expression} (h : ReadsLevel E m s e s') :
    Spans e.items s s' ∧ s.AtCode := by
  cases h with
  | mk ht hl ho =>
      obtain ⟨hlead, hloc⟩ := hl.spans hE ht
      exact ⟨(ho.spans hE hlead hloc).1, _, ht, hl.atCode ht⟩

end Statement

/-- **An expression is written as the tokens between its tapes.** -/
theorem covers_readsExpression (levels : Nat) : Covers (ReadsExpression levels) := by
  induction levels with
  | zero => exact ⟨fun h => h.elim, fun h => h.elim⟩
  | succ levels ih =>
      exact ⟨fun h => (covers_readsLevel ih h).1, fun h => (covers_readsLevel ih h).2⟩

end RSource.Grammar
