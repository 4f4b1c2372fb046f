import RSource.Proofs.Completeness
import RSource.Proofs.Levels
import RSource.Proofs.Soundness

/-!
# How deep expressions are nested

The limit on nesting is exact, and nothing but the limit depends on it.

* `Expression.inner`, `Term.inner`, `Operand.inner` and the like — the deepest nesting inside a
  part of a tree; `Expression.nest` counts the expression too.
* `ReadsExpression.nest_le` — what is read with some levels of nesting needs no more.
* `ReadsExpression.relevel` — what is read with some levels is read with any that suffice.
* `expressionAt` — the parse of an expression with so many others around it.
* `nesting_exact` — **so many levels as an expression has suffice, with fewer it is refused, and
  other errors do not depend on the levels**.
-/

namespace RSource

/-! ## Nesting of a tree -/

/-- How many levels deeper the right operand lies: that of `$` and `@` is a bare operand. -/
def BinaryOp.levels : BinaryOp → Nat
  | component | slot => 0
  | _ => 1

mutual

/-- The deepest nesting of an expression inside the expression. -/
def Expression.inner : Expression → Nat
  | .term _ t => Term.inner t
  | .unary _ _ t => 1 + Term.inner t
  | .binary _ op l r => max (Term.inner l) (op.levels + Term.inner r)
  | .assign _ l _ _ v => max (Term.inner l) (1 + Expression.inner v)

def Term.inner : Term → Nat
  | .mk o gs => max (Operand.inner o) (innerGroups gs)

def Operand.inner : Operand → Nat
  | .identifier _ | .constant _ => 0
  | .block _ es _ => innerExpressions es
  | .function _ ps e => max (innerFormals ps) (1 + Expression.inner e)
  | .ifThen _ c e => max (1 + Expression.inner c) (1 + Expression.inner e)
  | .ifElse _ c e o =>
      max (1 + Expression.inner c) (max (1 + Expression.inner e) (1 + Expression.inner o))
  | .forLoop _ _ s e => max (1 + Expression.inner s) (1 + Expression.inner e)
  | .whileLoop _ c e => max (1 + Expression.inner c) (1 + Expression.inner e)
  | .repeatLoop _ e => 1 + Expression.inner e
  | .help _ e => 1 + Expression.inner e
  | .paren e => 1 + Expression.inner e
  -- An operand with an operator of its own stands where its first operand does.
  | .nested e => Expression.inner e

def Group.inner : Group → Nat
  | .mk _ _ slots => innerArguments slots

def Argument.inner : Argument → Nat
  | .empty | .name _ => 0
  | .value e | .named _ e => 1 + Expression.inner e

def Formal.inner : Formal → Nat
  | .required _ => 0
  | .defaulted _ e => 1 + Expression.inner e

def innerExpressions : List Expression → Nat
  | [] => 0
  | e :: es => max (1 + Expression.inner e) (innerExpressions es)

def innerGroups : List Group → Nat
  | [] => 0
  | g :: gs => max (Group.inner g) (innerGroups gs)

def innerArguments : List Argument → Nat
  | [] => 0
  | a :: as => max (Argument.inner a) (innerArguments as)

def innerFormals : List Formal → Nat
  | [] => 0
  | p :: ps => max (Formal.inner p) (innerFormals ps)

end

/-- The number of expressions nested in one another, the expression included. -/
def Expression.nest (e : Expression) : Nat := 1 + e.inner

@[simp] theorem Term.inner_ofExpression (e : Expression) :
    (Term.ofExpression e).inner = e.inner := by
  cases e <;> simp [Term.ofExpression, Term.inner, Operand.inner, innerGroups, Expression.inner]

theorem nest_le_innerExpressions {e : Expression} {es : List Expression} (h : e ∈ es) :
    e.nest ≤ innerExpressions es := by
  induction h with
  | head es => exact Nat.le_max_left _ _
  | tail _ _ ih => exact Nat.le_trans ih (Nat.le_max_right _ _)

/-- How many levels deeper the right operand of the operator lies. -/
def TokenKind.levels (k : TokenKind) : Nat := if k = .dollar ∨ k = .atSign then 0 else 1

theorem BinaryOp.levels_ofToken? {k : TokenKind} {lexeme : String} {op : BinaryOp}
    (h : ofToken? k lexeme = some op) : op.levels = k.levels := by
  have hspecial : (ofSpecial lexeme).levels = 1 := by
    unfold ofSpecial
    repeat' split
    all_goals rfl
  unfold ofToken? at h
  split at h <;> cases h <;> first | rfl | exact hspecial

namespace Grammar

theorem inner_joined {loc : Location} {t : Token} {lhs rhs e : Expression}
    (h : joined? loc lhs t rhs = some e) : e.inner = max lhs.inner (t.kind.levels + rhs.inner) := by
  unfold joined? at h
  split at h
  · rename_i a ha
    cases h
    have hl : t.kind.levels = 1 := by
      cases hk : t.kind <;> simp [hk, AssignOp.ofKind?] at ha <;> rfl
    simp [Expression.inner, hl]
  · split at h
    · rename_i op hop
      cases h
      simp [Expression.inner, BinaryOp.levels_ofToken? hop]
    · cases h

/-! ## Enough levels -/

section Enough

variable {E : ExprReads} {n : Nat} {s s' : Tape} {close : TokenKind}
  (hE : ∀ {m s e s'}, E m s e s' → e.nest ≤ n)

include hE

theorem ReadsArgument.inner_le {a : Argument} (h : ReadsArgument E close s a s') :
    a.inner ≤ n := by
  cases h with
  | value _ _ he | named _ _ _ _ _ _ he => exact hE he
  | name => exact Nat.zero_le _

theorem ReadsSlot.inner_le {a : Argument} (h : ReadsSlot E close s a s') : a.inner ≤ n := by
  cases h with
  | empty => exact Nat.zero_le _
  | filled _ _ ha => exact ha.inner_le hE

theorem ReadsSlots.inner_le {as : List Argument} (h : ReadsSlots E close s as s') :
    innerArguments as ≤ n := by
  induction h with
  | last ha => exact Nat.max_le.mpr ⟨ha.inner_le hE, Nat.zero_le _⟩
  | trailing ha => exact Nat.max_le.mpr ⟨ha.inner_le hE, Nat.zero_le _⟩
  | more ha _ _ _ _ _ ih => exact Nat.max_le.mpr ⟨ha.inner_le hE, ih⟩

theorem ReadsArguments.inner_le {as : List Argument} (h : ReadsArguments E close s as s') :
    innerArguments as ≤ n := by
  cases h with
  | none => exact Nat.zero_le _
  | some _ _ hs => exact hs.inner_le hE

theorem ReadsGroups.inner_le {gs : List Group} (h : ReadsGroups E s gs s') :
    innerGroups gs ≤ n := by
  induction h with
  | stop => exact Nat.zero_le _
  | more hg _ ih =>
      cases hg with
      | mk _ _ _ ha => exact Nat.max_le.mpr ⟨ha.inner_le hE, ih⟩

theorem ReadsFormal.inner_le {p : Formal} (h : ReadsFormal E s p s') : p.inner ≤ n := by
  cases h with
  | required => exact Nat.zero_le _
  | defaulted _ _ _ he => exact hE he

theorem ReadsSomeFormals.inner_le {ps : List Formal} (h : ReadsSomeFormals E s ps s') :
    innerFormals ps ≤ n := by
  induction h with
  | last hp => exact Nat.max_le.mpr ⟨hp.inner_le hE, Nat.zero_le _⟩
  | more hp _ _ _ ih => exact Nat.max_le.mpr ⟨hp.inner_le hE, ih⟩

theorem ReadsFormals.inner_le {ps : List Formal} (h : ReadsFormals E s ps s') :
    innerFormals ps ≤ n := by
  cases h with
  | none => exact Nat.zero_le _
  | some _ _ hs => exact hs.inner_le hE

theorem ReadsStatements.inner_le {es : List Expression} (h : ReadsStatements E close s es s') :
    innerExpressions es ≤ n := by
  induction h with
  | skip _ _ _ ih => exact ih
  | stop => exact Nat.zero_le _
  | more _ _ _ _ he _ _ _ ih => exact Nat.max_le.mpr ⟨hE he, ih⟩

theorem ReadsParens.nest_le {e : Expression} (h : ReadsParens E s e s') : e.nest ≤ n := by
  cases h with
  | mk _ _ he => exact hE he

theorem ReadsBehind.nest_le {m : Nat} {e : Expression} (h : ReadsBehind E m s e s') :
    e.nest ≤ n := by
  cases h with
  | mk _ he => exact hE he

theorem ReadsOperand.inner_le {o : Operand} (h : ReadsOperand E s o s') : o.inner ≤ n := by
  cases h with
  | constant | identifier => exact Nat.zero_le _
  | paren he => exact he.nest_le hE
  | block _ _ hs => exact hs.inner_le hE
  | function _ _ _ _ hp _ _ he => exact Nat.max_le.mpr ⟨hp.inner_le hE, he.nest_le hE⟩
  | ifThen _ _ hc he => exact Nat.max_le.mpr ⟨hc.nest_le hE, he.nest_le hE⟩
  | ifElse _ _ hc he _ _ _ _ ho =>
      exact Nat.max_le.mpr ⟨hc.nest_le hE, Nat.max_le.mpr ⟨he.nest_le hE, ho.nest_le hE⟩⟩
  | forLoop _ _ _ _ _ _ _ hq _ _ he => exact Nat.max_le.mpr ⟨hE hq, he.nest_le hE⟩
  | whileLoop _ _ hc he => exact Nat.max_le.mpr ⟨hc.nest_le hE, he.nest_le hE⟩
  | repeatLoop _ _ he => exact he.nest_le hE

theorem ReadsTerm.inner_le {x : Term} (h : ReadsTerm E s x s') : x.inner ≤ n := by
  cases h with
  | mk ho hg => exact Nat.max_le.mpr ⟨ho.inner_le hE, hg.inner_le hE⟩

theorem ReadsLeading.inner_le {t : Token} {e : Expression} (h : ReadsLeading E t s e s') :
    e.inner ≤ n := by
  cases h with
  | unary _ he =>
      rw [Expression.inner, Term.inner_ofExpression]
      exact he.nest_le hE
  | help _ he => exact Nat.max_le.mpr ⟨he.nest_le hE, Nat.zero_le _⟩
  | term _ _ hx => exact hx.inner_le hE

theorem ReadsRight.inner_le {op : TokenKind} {power : Power} {e : Expression}
    (h : ReadsRight E op power s e s') : op.levels + e.inner ≤ n := by
  cases h with
  | bare hop _ ho =>
      rw [TokenKind.levels, if_pos hop, Nat.zero_add]
      exact Nat.max_le.mpr ⟨ho.inner_le hE, Nat.zero_le _⟩
  | full hop he =>
      rw [TokenKind.levels, if_neg hop]
      exact hE he

theorem ReadsOperations.inner_le {m : Nat} {loc : Location} {lhs e : Expression}
    (h : ReadsOperations E m loc lhs s e s') (hl : lhs.inner ≤ n) : e.inner ≤ n := by
  induction h with
  | stop => exact hl
  | groups _ _ hg _ ih => exact ih (Nat.max_le.mpr ⟨hl, hg.inner_le hE⟩)
  | operator _ _ _ _ _ hr hj _ ih =>
      refine ih ?_
      rw [inner_joined hj]
      exact Nat.max_le.mpr ⟨hl, hr.inner_le hE⟩

end Enough

/-- What is read with some levels of nesting needs no more. -/
theorem ReadsExpression.nest_le {levels m : Nat} {s s' : Tape} {e : Expression}
    (h : ReadsExpression levels m s e s') : e.nest ≤ levels := by
  induction levels generalizing m s e s' with
  | zero => exact h.elim
  | succ levels ih =>
      cases h with
      | mk _ hl ho =>
          have hinner := ho.inner_le ih (hl.inner_le ih)
          rw [Expression.nest]
          omega

/-! ## Other levels that suffice -/

/-- What stands before an operator is nested no deeper than the whole. -/
theorem ReadsOperations.le_inner {E : ExprReads} {m : Nat} {loc : Location} {lhs e : Expression}
    {s s' : Tape} (h : ReadsOperations E m loc lhs s e s') : lhs.inner ≤ e.inner := by
  induction h with
  | stop => exact Nat.le_refl _
  | groups _ _ _ _ ih => exact Nat.le_trans (Nat.le_max_left _ _) ih
  | operator _ _ _ _ _ _ hj _ ih =>
      rw [inner_joined hj] at ih
      exact Nat.le_trans (Nat.le_max_left _ _) ih

section Relevel

variable {E E' : ExprReads} {n : Nat} {s s' : Tape} {close : TokenKind}
  (hE : ∀ {m s e s'}, E m s e s' → e.nest ≤ n → E' m s e s')

include hE

theorem ReadsArgument.relevel {a : Argument} (h : ReadsArgument E close s a s')
    (hn : a.inner ≤ n) : ReadsArgument E' close s a s' := by
  cases h with
  | value ht ha he => exact .value ht ha (hE he hn)
  | name ht ha hu hk hv hend => exact .name ht ha hu hk hv hend
  | named ht ha hu hk hv hend he => exact .named ht ha hu hk hv hend (hE he hn)

theorem ReadsSlot.relevel {a : Argument} (h : ReadsSlot E close s a s') (hn : a.inner ≤ n) :
    ReadsSlot E' close s a s' := by
  cases h with
  | empty ht hk => exact .empty ht hk
  | filled ht hk ha => exact .filled ht hk (ha.relevel hE hn)

theorem ReadsSlots.relevel {as : List Argument} (h : ReadsSlots E close s as s')
    (hn : innerArguments as ≤ n) : ReadsSlots E' close s as s' := by
  induction h with
  | last ha hu hc hk => exact .last (ha.relevel hE (Nat.max_le.mp hn).1) hu hc hk
  | trailing ha hu hc hv hk => exact .trailing (ha.relevel hE (Nat.max_le.mp hn).1) hu hc hv hk
  | more ha hu hc hv hk _ ih =>
      exact .more (ha.relevel hE (Nat.max_le.mp hn).1) hu hc hv hk (ih (Nat.max_le.mp hn).2)

theorem ReadsArguments.relevel {as : List Argument} (h : ReadsArguments E close s as s')
    (hn : innerArguments as ≤ n) : ReadsArguments E' close s as s' := by
  cases h with
  | none ht hk => exact .none ht hk
  | some ht hk hs => exact .some ht hk (hs.relevel hE hn)

theorem ReadsGroups.relevel {gs : List Group} (h : ReadsGroups E s gs s')
    (hn : innerGroups gs ≤ n) : ReadsGroups E' s gs s' := by
  induction h with
  | stop ht hk => exact .stop ht hk
  | more hg _ ih =>
      have hrest := ih (Nat.max_le.mp hn).2
      cases hg with
      | mk ht hk hu ha hc =>
          exact .more (.mk ht hk hu (ha.relevel hE (Nat.max_le.mp hn).1) hc) hrest

theorem ReadsFormal.relevel {p : Formal} (h : ReadsFormal E s p s') (hn : p.inner ≤ n) :
    ReadsFormal E' s p s' := by
  cases h with
  | required hi ht hk => exact .required hi ht hk
  | defaulted hi ht hk he => exact .defaulted hi ht hk (hE he hn)

theorem ReadsSomeFormals.relevel {ps : List Formal} (h : ReadsSomeFormals E s ps s')
    (hn : innerFormals ps ≤ n) : ReadsSomeFormals E' s ps s' := by
  induction h with
  | last hp ht hk => exact .last (hp.relevel hE (Nat.max_le.mp hn).1) ht hk
  | more hp ht hk _ ih =>
      exact .more (hp.relevel hE (Nat.max_le.mp hn).1) ht hk (ih (Nat.max_le.mp hn).2)

theorem ReadsFormals.relevel {ps : List Formal} (h : ReadsFormals E s ps s')
    (hn : innerFormals ps ≤ n) : ReadsFormals E' s ps s' := by
  cases h with
  | none ht hk => exact .none ht hk
  | some ht hk hs => exact .some ht hk (hs.relevel hE hn)

theorem ReadsStatements.relevel {es : List Expression} (h : ReadsStatements E close s es s')
    (hn : innerExpressions es ≤ n) : ReadsStatements E' close s es s' := by
  induction h with
  | skip ht hk _ ih => exact .skip ht hk (ih hn)
  | stop ht hk hsep => exact .stop ht hk hsep
  | more ht hsep hc heof he hu hf _ ih =>
      exact .more ht hsep hc heof (hE he (Nat.max_le.mp hn).1) hu hf (ih (Nat.max_le.mp hn).2)

theorem ReadsParens.relevel {e : Expression} (h : ReadsParens E s e s') (hn : e.nest ≤ n) :
    ReadsParens E' s e s' := by
  cases h with
  | mk ht hk he hu hc => exact .mk ht hk (hE he hn) hu hc

theorem ReadsBehind.relevel {m : Nat} {e : Expression} (h : ReadsBehind E m s e s')
    (hn : e.nest ≤ n) : ReadsBehind E' m s e s' := by
  cases h with
  | mk ht he => exact .mk ht (hE he hn)

theorem ReadsOperand.relevel {o : Operand} (h : ReadsOperand E s o s') (hn : o.inner ≤ n) :
    ReadsOperand E' s o s' := by
  cases h with
  | constant ht hc => exact .constant ht hc
  | identifier ht hk => exact .identifier ht hk
  | paren he => exact .paren (he.relevel hE hn)
  | block ht hk hs hu hc => exact .block ht hk (hs.relevel hE hn) hu hc
  | function ht hk hu ho hp hv hc he =>
      obtain ⟨hparams, hbody⟩ := Nat.max_le.mp hn
      exact .function ht hk hu ho (hp.relevel hE hparams) hv hc (he.relevel hE hbody)
  | ifThen ht hk hc he hx hne =>
      obtain ⟨hcond, hbody⟩ := Nat.max_le.mp hn
      exact .ifThen ht hk (hc.relevel hE hcond) (he.relevel hE hbody) hx hne
  | ifElse ht hk hc he hx hj hy hi ho =>
      obtain ⟨hcond, hbranches⟩ := Nat.max_le.mp hn
      obtain ⟨hthen, helse⟩ := Nat.max_le.mp hbranches
      exact .ifElse ht hk (hc.relevel hE hcond) (he.relevel hE hthen) hx hj hy hi
        (ho.relevel hE helse)
  | forLoop ht hk hu ho hi hv hin hq hw hc he =>
      obtain ⟨hseq, hbody⟩ := Nat.max_le.mp hn
      exact .forLoop ht hk hu ho hi hv hin (hE hq hseq) hw hc (he.relevel hE hbody)
  | whileLoop ht hk hc he =>
      obtain ⟨hcond, hbody⟩ := Nat.max_le.mp hn
      exact .whileLoop ht hk (hc.relevel hE hcond) (he.relevel hE hbody)
  | repeatLoop ht hk he => exact .repeatLoop ht hk (he.relevel hE hn)

theorem ReadsTerm.relevel {x : Term} (h : ReadsTerm E s x s') (hn : x.inner ≤ n) :
    ReadsTerm E' s x s' := by
  cases h with
  | mk ho hg => exact .mk (ho.relevel hE (Nat.max_le.mp hn).1) (hg.relevel hE (Nat.max_le.mp hn).2)

theorem ReadsLeading.relevel {t : Token} {e : Expression} (h : ReadsLeading E t s e s')
    (hn : e.inner ≤ n) : ReadsLeading E' t s e s' := by
  cases h with
  | unary hop he =>
      rw [Expression.inner, Term.inner_ofExpression] at hn
      exact .unary hop (he.relevel hE hn)
  | help hk he => exact .help hk (he.relevel hE (Nat.max_le.mp hn).1)
  | term hop hk hx => exact .term hop hk (hx.relevel hE hn)

theorem ReadsRight.relevel {op : TokenKind} {power : Power} {e : Expression}
    (h : ReadsRight E op power s e s') (hn : op.levels + e.inner ≤ n) :
    ReadsRight E' op power s e s' := by
  cases h with
  | bare hop ht ho =>
      rw [TokenKind.levels, if_pos hop, Nat.zero_add] at hn
      exact .bare hop ht (ho.relevel hE (Nat.max_le.mp hn).1)
  | full hop he =>
      rw [TokenKind.levels, if_neg hop] at hn
      exact .full hop (hE he hn)

theorem ReadsOperations.relevel {m : Nat} {loc : Location} {lhs e : Expression}
    (h : ReadsOperations E m loc lhs s e s') (hn : e.inner ≤ n) :
    ReadsOperations E' m loc lhs s e s' := by
  induction h with
  | stop ht hb hp => exact .stop ht hb hp
  | groups ht hb hg ho ih =>
      have hwhole := Nat.le_trans ho.le_inner hn
      exact .groups ht hb (hg.relevel hE (Nat.max_le.mp hwhole).2) (ih hn)
  | operator ht hb hp hm hl hr hj ho ih =>
      have hwhole := Nat.le_trans ho.le_inner hn
      rw [inner_joined hj] at hwhole
      exact .operator ht hb hp hm hl (hr.relevel hE (Nat.max_le.mp hwhole).2) hj (ih hn)

end Relevel

/-- What is read with some levels of nesting is read with any that suffice. -/
theorem ReadsExpression.relevel {levels levels' m : Nat} {s s' : Tape} {e : Expression}
    (h : ReadsExpression levels m s e s') (hn : e.nest ≤ levels') :
    ReadsExpression levels' m s e s' := by
  induction levels generalizing levels' m s e s' with
  | zero => exact h.elim
  | succ levels ih =>
      rw [Expression.nest] at hn
      obtain ⟨n, rfl⟩ := Nat.exists_eq_add_of_le hn
      have hinner : e.inner ≤ e.inner + n := Nat.le_add_right _ _
      have hlevel : ReadsLevel (ReadsExpression (e.inner + n)) m s e s' := by
        cases h with
        | mk ht hl ho =>
            exact .mk ht (hl.relevel ih (Nat.le_trans ho.le_inner hinner)) (ho.relevel ih hinner)
      rwa [show 1 + e.inner + n = e.inner + n + 1 by omega]

end Grammar

/-! ## The limit -/

section Limit

variable {bound depth m : Nat} {s s' : Feed} {e : Expression}

/-- The parse of an expression with so many others around it. -/
def expressionAt (bound depth minPower : Nat) : Parse Expression :=
  Grammar.expression bound (maxNesting - depth) minPower

/-- Fewer expressions around it leave an expression as it is, unless it was too deep. -/
theorem run_expressionAt {depth' : Nat} (bound m : Nat) (s : Feed) (h : depth' ≤ depth) :
    (∃ loc, (expressionAt bound depth m).run s = .error (.tooDeep loc)) ∨
      (expressionAt bound depth' m).run s = (expressionAt bound depth m).run s :=
  (Grammar.deepens_expression bound m (by omega)).run s

/-- An accepted expression is accepted wherever its nesting stays within the limit. -/
theorem expressionAt_of_nest (hb : s.reader.rest.length < bound)
    (h : (expressionAt bound 0 m).run s = .ok (e, s')) (hn : depth + e.nest ≤ maxNesting) :
    (expressionAt bound depth m).run s = .ok (e, s') := by
  have hplay := Parse.play_of_run h
  have hlevels : e.nest ≤ maxNesting - depth := by omega
  have hreads := (Grammar.readsExpression_of_play hplay).relevel hlevels
  have hagain := (Grammar.plays_readsExpression bound _).play hreads (s.within_tape hb)
  rcases run_expressionAt bound m s (Nat.zero_le depth) with ⟨loc, hdeep⟩ | hsame
  · -- The tape says that the expression is accepted here too.
    have hplay := Parse.play_tape (expressionAt bound depth m) s
    rw [hdeep, expressionAt, hagain] at hplay
    cases hplay
  · rw [← hsame, h]

/-- Beyond the limit it is refused as too deep. -/
theorem expressionAt_tooDeep (h : (expressionAt bound 0 m).run s = .ok (e, s'))
    (hn : maxNesting < depth + e.nest) :
    ∃ loc, (expressionAt bound depth m).run s = .error (.tooDeep loc) := by
  rcases run_expressionAt bound m s (Nat.zero_le depth) with hdeep | hsame
  · exact hdeep
  · have hplay := Parse.play_of_run (hsame.symm.trans h)
    have hle : e.nest ≤ maxNesting - depth := (Grammar.readsExpression_of_play hplay).nest_le
    have hpos : 0 < e.nest := by rw [Expression.nest]; omega
    omega

/-- The statements of an accepted source are nested within the limit. -/
theorem nest_le_of_parse {bytes : List UInt8} {p : Program} (h : parse bytes = .ok p) :
    ∀ e ∈ p.statements, e.nest ≤ maxNesting := by
  obtain ⟨_, _, -, -, hreads⟩ := Grammar.readsProgram_of_parse h
  have hall := hreads.inner_le fun he => he.nest_le
  intro e he
  exact Nat.le_trans (nest_le_innerExpressions he) hall

/-- **The limit on nesting is exact and changes nothing else.** An expression that is accepted with
none around it is accepted just so as long as the limit holds, and is refused as too deep beyond
it; any other refusal stands however few expressions are around. -/
theorem nesting_exact (hb : s.reader.rest.length < bound) (m : Nat) :
    (∀ e s', (expressionAt bound 0 m).run s = .ok (e, s') → ∀ depth,
      if depth + e.nest ≤ maxNesting then (expressionAt bound depth m).run s = .ok (e, s')
      else ∃ loc, (expressionAt bound depth m).run s = .error (.tooDeep loc)) ∧
    (∀ depth err, (expressionAt bound depth m).run s = .error err → (∀ loc, err ≠ .tooDeep loc) →
      ∀ depth' ≤ depth, (expressionAt bound depth' m).run s = .error err) ∧
    (∀ bytes p, parse bytes = .ok p → ∀ e ∈ p.statements, e.nest ≤ maxNesting) := by
  refine ⟨fun e s' h depth => ?_, fun depth err h hother depth' hle => ?_,
    fun bytes p h => nest_le_of_parse h⟩
  · split
    · rename_i hn
      exact expressionAt_of_nest hb h hn
    · rename_i hn
      exact expressionAt_tooDeep h (Nat.lt_of_not_le hn)
  · rcases run_expressionAt bound m s hle with ⟨loc, hdeep⟩ | hsame
    · rw [h] at hdeep
      cases hdeep
      exact absurd rfl (hother loc)
    · rw [hsame, h]

end Limit

/-- The operand of a minus and what its parentheses hold are a level deeper each, so at most 61
expressions may be around the three of `-(a)`. -/
theorem nesting_exact_of_minus :
    let s := Feed.ofText "-(a)".toList
    let e : Expression := .unary ⟨1, 1⟩ .minus
      (.mk (.paren (.term ⟨1, 3⟩ (.mk (.identifier ⟨⟨1, 3⟩, "a", false⟩) []))) [])
    let s' : Feed := ⟨⟨⟨4, ⟨1, 5⟩⟩, []⟩, []⟩
    e.nest = 3 ∧ (expressionAt 5 0 0).run s = .ok (e, s') ∧
      (expressionAt 5 61 0).run s = .ok (e, s') ∧
      ∃ loc, (expressionAt 5 62 0).run s = .error (.tooDeep loc) := by
  intro s e s'
  have hnest : e.nest = 3 := by rfl
  have haccepted : (expressionAt 5 0 0).run s = .ok (e, s') := by
    dsimp only [s, e, s']
    rfl
  have hb : s.reader.rest.length < 5 := by decide
  obtain ⟨hexact, -⟩ := nesting_exact hb 0
  have hexact := hexact e s' haccepted
  rw [hnest] at hexact
  have hwithin := hexact 61
  rw [if_pos (by decide)] at hwithin
  have hbeyond := hexact 62
  rw [if_neg (by decide)] at hbeyond
  exact ⟨hnest, haccepted, hwithin, hbeyond⟩

end RSource
