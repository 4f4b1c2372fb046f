import RSource.Proofs.Building

/-!
# Conditions at the right end

An `else` belongs to the nearest condition in front of it that is still open: no branch in front of
an `else` ends in a condition without one.

* `Expression.Dangles` — a condition without an `else` stands at the right end, outside all
  brackets.
* `Dangling` — what is asked of the relation of an expression: no `else` goes on with what ends in
  such a condition.
* `ReadsOperand.dangling`, `ReadsOperations.dangling` and the like — one for each relation.
* `ReadsStatements.not_dangles` — **no branch in front of an `else` dangles**.
-/

namespace RSource

/-! ## Right ends -/

mutual

/-- A condition without an `else` stands at the right end of the expression: as the last operand or
as what ends the last body or branch, outside all brackets. -/
def Expression.Dangles : Expression → Prop
  | .term _ t | .unary _ _ t | .binary _ _ _ t => Term.Dangles t
  | .assign _ _ _ _ v => Expression.Dangles v

def Term.Dangles : Term → Prop
  | .mk o [] => Operand.Dangles o
  | .mk _ (_ :: _) => False

def Operand.Dangles : Operand → Prop
  | .ifThen _ _ _ => True
  | .ifElse _ _ _ e | .function _ _ e | .forLoop _ _ _ e | .whileLoop _ _ e | .repeatLoop _ e
  | .help _ e | .nested e => Expression.Dangles e
  | .identifier _ | .constant _ | .block _ _ _ | .paren _ => False

end

/-- As an operand an expression dangles as it does by itself. -/
theorem Term.dangles_ofExpression {e : Expression} (h : (Term.ofExpression e).Dangles) :
    e.Dangles := by
  cases e <;> exact h

/-- If the operand is a condition with an `else`, the branch in front of that does not dangle. -/
def Term.IsClosed (t : Term) : Prop :=
  ∀ loc c e o, t.operand = .ifElse loc c e o → ¬ e.Dangles

namespace Grammar

/-- What is asked of the relation of an expression: no `else` goes on with it behind one that
dangles. -/
def Dangling (E : ExprReads) : Prop :=
  ∀ ⦃m : Nat⦄ ⦃s s' : Tape⦄ ⦃e : Expression⦄, E m s e s' → e.Dangles →
    ∃ x, s'.clause = .ok x ∧ x.kind ≠ .elseWord

variable {E : ExprReads} {s s' : Tape} (hE : Dangling E)

include hE

theorem ReadsBehind.dangling {m : Nat} {e : Expression} (h : ReadsBehind E m s e s')
    (hd : e.Dangles) : ∃ x, s'.clause = .ok x ∧ x.kind ≠ .elseWord := by
  cases h with
  | mk _ he => exact hE he hd

theorem ReadsOperand.dangling {o : Operand} (h : ReadsOperand E s o s') (hd : o.Dangles) :
    ∃ x, s'.clause = .ok x ∧ x.kind ≠ .elseWord := by
  cases h with
  | constant | identifier | paren | block => exact hd.elim
  | ifThen _ _ _ _ hx hne => exact ⟨_, hx, hne⟩
  | ifElse _ _ _ _ _ _ _ _ he => exact he.dangling hE hd
  | function _ _ _ _ _ _ _ he => exact he.dangling hE hd
  | forLoop _ _ _ _ _ _ _ _ _ _ he => exact he.dangling hE hd
  | whileLoop _ _ _ he => exact he.dangling hE hd
  | repeatLoop _ _ he => exact he.dangling hE hd

theorem ReadsTerm.dangling {t : Term} (h : ReadsTerm E s t s') (hd : t.Dangles) :
    ∃ x, s'.clause = .ok x ∧ x.kind ≠ .elseWord := by
  cases h with
  | mk ho hg =>
      cases hg with
      | stop => exact ho.dangling hE hd
      | more => exact hd.elim

theorem ReadsLeading.dangling {t : Token} {e : Expression} (h : ReadsLeading E t s e s')
    (hd : e.Dangles) : ∃ x, s'.clause = .ok x ∧ x.kind ≠ .elseWord := by
  cases h with
  | unary _ he => exact he.dangling hE (Term.dangles_ofExpression hd)
  | help _ he => exact he.dangling hE hd
  | term _ _ ht => exact ht.dangling hE hd

theorem ReadsRight.dangling {op : TokenKind} {power : Power} {e : Expression}
    (h : ReadsRight E op power s e s') (hd : e.Dangles) :
    ∃ x, s'.clause = .ok x ∧ x.kind ≠ .elseWord := by
  cases h with
  | bare _ _ ho => exact ho.dangling hE hd
  | full _ he => exact hE he hd

omit hE in
/-- What an operator joins dangles only if its right operand does. -/
theorem dangles_joined {loc : Location} {lhs rhs e : Expression} {t : Token}
    (hj : joined? loc lhs t rhs = some e) (hd : e.Dangles) : rhs.Dangles := by
  unfold joined? at hj
  split at hj
  · cases hj
    exact hd
  · split at hj
    · cases hj
      exact Term.dangles_ofExpression hd
    · cases hj

/-- From operator to operator it is the last operand that dangles. -/
theorem ReadsOperations.dangling {m : Nat} {loc : Location} {lhs e : Expression}
    (h : ReadsOperations E m loc lhs s e s')
    (hl : lhs.Dangles → ∃ x, s.clause = .ok x ∧ x.kind ≠ .elseWord) (hd : e.Dangles) :
    ∃ x, s'.clause = .ok x ∧ x.kind ≠ .elseWord := by
  induction h with
  | stop => exact hl hd
  | groups ht hb hg _ ih =>
      refine ih (fun hd => ?_) hd
      rcases hg.of_front ht with ⟨hnone, -⟩ | ⟨-, g, gs, rfl⟩
      · rw [hnone] at hb
        cases hb
      · exact hd.elim
  | operator _ _ _ _ _ hr hj _ ih =>
      exact ih (fun hd => hr.dangling hE (dangles_joined hj hd)) hd

omit hE in
theorem dangling_readsExpression (levels : Nat) : Dangling (ReadsExpression levels) := by
  induction levels with
  | zero => exact fun _ _ _ _ h => h.elim
  | succ levels ih =>
      intro m s s' e h hd
      cases h with
      | mk _ hl ho => exact ho.dangling ih (hl.dangling ih) hd

/-- The branch in front of an `else` does not dangle: the `else` goes on with it. -/
theorem ReadsOperand.isClosed {o : Operand} {gs : List Group} (h : ReadsOperand E s o s') :
    (Term.mk o gs).IsClosed := by
  rintro loc c e o rfl hd
  cases h with
  | ifElse _ _ _ he hx hj =>
      obtain ⟨x, hx', hne⟩ := he.dangling hE hd
      rw [hx] at hx'
      cases hx'
      exact hne hj

omit hE in
theorem throughout_isClosed (levels : Nat) :
    Throughout (fun _ => True) (fun e => ∀ t ∈ e.terms, t.IsClosed) (ReadsExpression levels) := by
  apply throughout_readsExpression
  case hI => exact fun _ _ _ _ => trivial
  case hroot =>
    intro levels hT
    have hE := dangling_readsExpression levels
    apply rooted_terms hT
    case nested => exact fun _ _ _ _ _ _ h => by cases h
    case help => exact fun _ _ _ _ _ _ h => by cases h
    case called => exact fun _ _ _ _ _ _ _ _ _ h => by cases h
    case bare => exact fun ho => ho.isClosed hE
    case term =>
      intro s s' t ht _
      cases ht with
      | mk ho _ => exact ho.isClosed hE

omit hE in
/-- **No branch in front of an `else` dangles.** -/
theorem ReadsStatements.not_dangles {close : TokenKind} {es : List Expression}
    (h : ReadsStatements (ReadsExpression maxNesting) close s es s') :
    ∀ e ∈ statementsAll es, ∀ t ∈ e.terms, t.IsClosed :=
  h.throughout (throughout_isClosed maxNesting) trivial

end Grammar

end RSource
