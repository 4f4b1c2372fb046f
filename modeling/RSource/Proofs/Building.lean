import RSource.Proofs.Precedence

/-!
# Expressions built from their parts

An expression is built where its last part has been read. What holds of it there, whatever it is
built from, holds of all expressions in a tree.

* `Expression.terms` — the terms that an expression consists of, without those in other expressions.
* `Grammar.Rooted` — a property holds of every expression that is built.
* `Grammar.rooted_terms` — a property of terms holds of those of every expression that is built.
* `Grammar.throughout_readsExpression` — **what holds of every expression that is built holds of all
  expressions** that are read.
-/

namespace RSource

/-- The terms that an expression consists of. -/
def Expression.terms : Expression → List Term
  | .term _ t | .unary _ _ t | .assign _ t _ _ _ => [t]
  | .binary _ _ l r => [l, r]

/-- Whether the expression has no operator. -/
def Expression.IsTerm : Expression → Prop
  | .term _ _ => True
  | _ => False

/-- What holds of the terms of an expression, and of every operator nested for its own sake, holds
of the expression as an operand. -/
theorem Term.ofExpression_of_terms {P : Term → Prop}
    (nested : ∀ e : Expression, ¬ e.IsTerm → P (.mk (.nested e) [])) {e : Expression}
    (h : ∀ t ∈ e.terms, P t) : P (Term.ofExpression e) := by
  cases e with
  | term loc t => exact h t List.mem_cons_self
  | unary loc op t => exact nested _ id
  | binary loc op l r => exact nested _ id
  | assign loc l opLoc op v => exact nested _ id

namespace Grammar

/-- The property `Q` holds of every expression that is built from parts that have been read, the
first of them from a tape with the property `I`: of what stands before the first operator, of a
component, of what calls and subscripts stand behind, and of an operator with both its operands. -/
structure Rooted (I : Tape → Prop) (Q : Expression → Prop) (E : ExprReads) : Prop where
  leading : ∀ {t : Token} {s s' : Tape} {e : Expression}, ReadsLeading E t s e s' → I s → Q e
  bare : ∀ {loc : Location} {s s' : Tape} {o : Operand}, ReadsOperand E s o s' →
    Q (.term loc (.mk o []))
  called : ∀ {m : Nat} {loc : Location} {lhs : Expression} {s s' : Tape} {t : Token}
    {gs : List Group}, Open m lhs s → s.front = .ok t → (Brackets.ofKind? t.kind).isSome = true →
    ReadsGroups E s gs s' → I s → Q (.term loc (.mk (.nested lhs) gs))
  joined : ∀ {loc : Location} {lhs rhs e : Expression} {t : Token} {p : Power} {s s' : Tape},
    Q lhs → Q rhs → ReadsRight E t.kind p s rhs s' → joined? loc lhs t rhs = some e → Q e

variable {I : Tape → Prop} {E : ExprReads} {s s' : Tape}

/-- A property of terms holds of those of every expression that is built, if it holds of the terms
that are read, of those without calls and subscripts, and of those behind which these stand. -/
theorem rooted_terms {P : Term → Prop} (hE : Throughout I (fun e => ∀ t ∈ e.terms, P t) E)
    (nested : ∀ e : Expression, ¬ e.IsTerm → P (.mk (.nested e) []))
    (help : ∀ loc e, P (.mk (.help loc e) []))
    (term : ∀ {s s' : Tape} {t : Term}, ReadsTerm E s t s' → I s → P t)
    (bare : ∀ {s s' : Tape} {o : Operand}, ReadsOperand E s o s' → P (.mk o []))
    (called : ∀ {m : Nat} {lhs : Expression} {s s' : Tape} {t : Token} {gs : List Group},
      Open m lhs s → s.front = .ok t → (Brackets.ofKind? t.kind).isSome = true →
      ReadsGroups E s gs s' → I s → P (.mk (.nested lhs) gs)) :
    Rooted I (fun e => ∀ t ∈ e.terms, P t) E := by
  constructor
  case leading =>
    intro t s s' e h hs
    cases h with
    | unary _ he =>
        have hterms := he.throughout hE (hE.past hs) _ (Expression.mem_all _)
        exact List.forall_mem_singleton.mpr (Term.ofExpression_of_terms nested hterms)
    | help => exact List.forall_mem_singleton.mpr (help _ _)
    | term _ _ ht => exact List.forall_mem_singleton.mpr (term ht hs)
  case bare => exact fun h => List.forall_mem_singleton.mpr (bare h)
  case called =>
    intro m loc lhs s s' t gs hopen ht hb hg hs
    exact List.forall_mem_singleton.mpr (called hopen ht hb hg hs)
  case joined =>
    intro loc lhs rhs e t p s s' hl hr _ hj
    unfold joined? at hj
    split at hj
    · cases hj
      exact List.forall_mem_singleton.mpr (Term.ofExpression_of_terms nested hl)
    · split at hj
      · cases hj
        exact List.forall_mem_cons.mpr ⟨Term.ofExpression_of_terms nested hl,
          List.forall_mem_singleton.mpr (Term.ofExpression_of_terms nested hr)⟩
      · cases hj

section Rooted

variable {Q : Expression → Prop} (hE : Throughout I Q E) (hroot : Rooted I Q E)

include hE hroot

theorem ReadsLeading.throughout {t : Token} {e : Expression} (h : ReadsLeading E t s e s')
    (hs : I s) : ∀ x ∈ e.all, Q x := by
  have hq := hroot.leading h hs
  intro x hx
  cases h with
  | unary _ he =>
      rcases List.mem_cons.mp hx with rfl | hx
      · exact hq
      · exact he.throughout hE (hE.past hs) x (Term.all_ofExpression hx)
  | help _ he =>
      rcases List.mem_cons.mp hx with rfl | hx
      · exact hq
      · rw [Term.all, Operand.all, groupsAll, List.append_nil] at hx
        exact he.throughout hE (hE.past hs) x hx
  | term _ _ ht =>
      rcases List.mem_cons.mp hx with rfl | hx
      · exact hq
      · exact ht.throughout hE hs x hx

theorem ReadsRight.throughout {op : TokenKind} {power : Power} {e : Expression}
    (h : ReadsRight E op power s e s') (hs : I s) : ∀ x ∈ e.all, Q x := by
  cases h with
  | bare _ _ ho =>
      intro x hx
      rcases List.mem_cons.mp hx with rfl | hx
      · exact hroot.bare ho
      · rw [Term.all, groupsAll, List.append_nil] at hx
        exact ho.throughout hE hs x hx
  | full _ he => exact hE.holds he hs

omit hE hroot in
theorem throughout_joined {loc : Location} {lhs rhs e : Expression} {t : Token}
    (hl : ∀ x ∈ lhs.all, Q x) (hr : ∀ x ∈ rhs.all, Q x) (hq : Q e)
    (hj : joined? loc lhs t rhs = some e) : ∀ x ∈ e.all, Q x := by
  intro x hx
  unfold joined? at hj
  split at hj
  · cases hj
    rcases List.mem_cons.mp hx with rfl | hx
    · exact hq
    · rcases List.mem_append.mp hx with hx | hx
      · exact hl x (Term.all_ofExpression hx)
      · exact hr x hx
  · split at hj
    · cases hj
      rcases List.mem_cons.mp hx with rfl | hx
      · exact hq
      · rcases List.mem_append.mp hx with hx | hx
        · exact hl x (Term.all_ofExpression hx)
        · exact hr x (Term.all_ofExpression hx)
    · cases hj

/-- From operator to operator the property is kept, as what has been read so far stays open. -/
theorem ReadsOperations.throughout (hT : Tied E) {m : Nat} {loc : Location} {lhs e : Expression}
    (h : ReadsOperations E m loc lhs s e s') (hl : Open m lhs s) (hs : I s)
    (hq : ∀ x ∈ lhs.all, Q x) : ∀ x ∈ e.all, Q x := by
  induction h with
  | stop => exact hq
  | groups ht hb hg _ ih =>
      apply ih (hl.called hT ht hb hg) (hE.inherited (hg.suffix hE.covers) hs)
      intro x hx
      rcases List.mem_cons.mp hx with rfl | hx
      · exact hroot.called hl ht hb hg hs
      · rcases List.mem_append.mp hx with hx | hx
        · exact hq x hx
        · exact hg.throughout hE hs x hx
  | operator ht _ hp hm _ hr hj _ ih =>
      have hbehind := hE.afterLines (hE.past hs)
      have hright := hr.throughout hE hroot hbehind
      have hbuilt := hroot.joined (hq _ (Expression.mem_all _)) (hright _ (Expression.mem_all _))
        hr hj
      exact ih (hl.joined hT ht hp hm hr hj) (hE.behind (hr.spans hE.covers) hbehind)
        (throughout_joined hq hright hbuilt hj)

end Rooted

/-- **What holds of every expression that is built holds of all expressions** that are read. -/
theorem throughout_readsExpression {Q : Expression → Prop} (hI : Tape.Inherited I)
    (hroot : ∀ levels, Throughout I Q (ReadsExpression levels) →
      Rooted I Q (ReadsExpression levels)) (levels : Nat) :
    Throughout I Q (ReadsExpression levels) := by
  refine ⟨covers_readsExpression levels, hI, ?_⟩
  induction levels with
  | zero => exact fun h => h.elim
  | succ levels ih =>
      intro m s s' e h hs
      have hE : Throughout I Q (ReadsExpression levels) := ⟨covers_readsExpression levels, hI, ih⟩
      have hT := tied_readsExpression levels
      have hR := hroot levels hE
      cases h with
      | mk ht hl ho =>
          have hlead := (hl.spans hE.covers ht).1
          exact ho.throughout hE hR hT (hl.opens hT) (hE.behind hlead hs) (hl.throughout hE hR hs)

end Grammar

end RSource
