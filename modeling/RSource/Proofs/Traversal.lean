import RSource.Proofs.Coverage

/-!
# All expressions of a tree

* `Expression.all`, `Program.expressions` — all expressions in a tree.
* `Tape.Inherited` — a property of tapes that goes from a tape to what is left of it.
* `Grammar.Throughout` — what holds of all expressions in whatever is read from a tape of a kind.
* `Grammar.ReadsOperand.throughout` and the like — then it holds of all expressions in the parts that
  are read from them.
-/

namespace RSource

mutual

/-- An expression and all expressions in it. -/
def Expression.all : Expression → List Expression
  | .term loc t => .term loc t :: Term.all t
  | .unary loc op t => .unary loc op t :: Term.all t
  | .binary loc op l r => .binary loc op l r :: (Term.all l ++ Term.all r)
  | .assign loc l opLoc op v => .assign loc l opLoc op v :: (Term.all l ++ Expression.all v)

def Term.all : Term → List Expression
  | .mk o gs => Operand.all o ++ groupsAll gs

def Operand.all : Operand → List Expression
  | .identifier _ | .constant _ => []
  | .block _ es _ => statementsAll es
  | .function _ fs e => formalsAll fs ++ Expression.all e
  | .ifThen _ c e => Expression.all c ++ Expression.all e
  | .ifElse _ c e o => Expression.all c ++ (Expression.all e ++ Expression.all o)
  | .forLoop _ _ s e => Expression.all s ++ Expression.all e
  | .whileLoop _ c e => Expression.all c ++ Expression.all e
  | .repeatLoop _ e | .help _ e | .paren e | .nested e => Expression.all e

def Group.all : Group → List Expression
  | .mk _ _ slots => argumentsAll slots

def Argument.all : Argument → List Expression
  | .empty | .name _ => []
  | .value e | .named _ e => Expression.all e

def Formal.all : Formal → List Expression
  | .required _ => []
  | .defaulted _ e => Expression.all e

def statementsAll : List Expression → List Expression
  | [] => []
  | e :: es => Expression.all e ++ statementsAll es

def groupsAll : List Group → List Expression
  | [] => []
  | g :: gs => Group.all g ++ groupsAll gs

def argumentsAll : List Argument → List Expression
  | [] => []
  | a :: as => Argument.all a ++ argumentsAll as

def formalsAll : List Formal → List Expression
  | [] => []
  | f :: fs => Formal.all f ++ formalsAll fs

end

/-- All expressions of a program, those in others included. -/
def Program.expressions (p : Program) : List Expression := statementsAll p.statements

theorem Expression.mem_all (e : Expression) : e ∈ e.all := by
  cases e <;> exact List.mem_cons_self

theorem Term.all_ofExpression {e x : Expression} (h : x ∈ (Term.ofExpression e).all) :
    x ∈ e.all := by
  cases e with
  | term loc t => exact List.mem_cons_of_mem _ h
  | unary loc op t | binary loc op l r | assign loc l opLoc op v =>
      simpa [Term.ofExpression, Term.all, Operand.all, groupsAll] using h

/-- A property of tapes that goes from a tape to each that has some last of its tokens. -/
def Tape.Inherited (I : Tape → Prop) : Prop :=
  ∀ ⦃s r : Tape⦄, r.tokens <:+ s.tokens → I s → I r

theorem Spans.suffix {is : List Item} {s s' : Tape} (h : Spans is s s') : s'.tokens <:+ s.tokens := by
  obtain ⟨seg, hseg, -⟩ := h.reads
  exact ⟨seg, hseg.symm⟩

namespace Grammar

theorem ReadsGroup.suffix {E : ExprReads} (hE : Covers E) {g : Group} {s s' : Tape}
    (h : ReadsGroup E s g s') : s'.tokens <:+ s.tokens := by
  have hspan : Spans (g.items []) s s' := h.spans hE
  exact hspan.suffix

theorem ReadsGroups.suffix {E : ExprReads} (hE : Covers E) {gs : List Group} {s s' : Tape}
    (h : ReadsGroups E s gs s') : s'.tokens <:+ s.tokens := by
  have hspan : Spans (groupItems [] gs) s s' := h.spans hE
  exact hspan.suffix

/-- The property `Q` holds of all expressions in whatever the relation reads from a tape with the
property `I`. -/
structure Throughout (I : Tape → Prop) (Q : Expression → Prop) (E : ExprReads) : Prop where
  covers : Covers E
  inherited : Tape.Inherited I
  holds : ∀ {m : Nat} {s s' : Tape} {e : Expression}, E m s e s' → I s → ∀ x ∈ e.all, Q x

namespace Throughout

variable {I : Tape → Prop} {Q : Expression → Prop} {E : ExprReads} {s s' : Tape}
variable (hE : Throughout I Q E)

include hE

theorem past (hs : I s) : I s.past := hE.inherited s.past_suffix hs

theorem afterLines (hs : I s) : I s.afterLines := hE.inherited s.afterLines_suffix hs

theorem enter (l : Layout) (hs : I s) : I (s.enter l) := hE.inherited (s := s) (List.suffix_refl _) hs

theorem leave (hs : I s) : I s.leave := hE.inherited (s := s) (List.suffix_refl _) hs

theorem behind {is : List Item} (h : Spans is s s') (hs : I s) : I s' := hE.inherited h.suffix hs

end Throughout

variable {I : Tape → Prop} {Q : Expression → Prop} {E : ExprReads} {close : TokenKind}
  {s s' : Tape}
variable (hE : Throughout I Q E)

include hE

theorem ReadsArgument.throughout {a : Argument} (h : ReadsArgument E close s a s') (hs : I s) :
    ∀ x ∈ a.all, Q x := by
  cases h with
  | value _ _ he => exact hE.holds he hs
  | name => exact fun _ hx => by cases hx
  | named _ _ _ _ _ _ he => exact hE.holds he (hE.past (hE.past hs))

theorem ReadsSlot.throughout {a : Argument} (h : ReadsSlot E close s a s') (hs : I s) :
    ∀ x ∈ a.all, Q x := by
  cases h with
  | empty => exact fun _ hx => by cases hx
  | filled _ _ ha => exact ha.throughout hE hs

theorem ReadsSlots.throughout {as : List Argument} (h : ReadsSlots E close s as s') (hs : I s) :
    ∀ x ∈ argumentsAll as, Q x := by
  induction h with
  | last ha | trailing ha =>
      simpa [argumentsAll, Argument.all] using ha.throughout hE hs
  | more ha _ _ _ _ _ ih =>
      intro x hx
      rcases List.mem_append.mp hx with hx | hx
      · exact ha.throughout hE hs x hx
      · exact ih (hE.past (hE.behind (ha.spans hE.covers) hs)) x hx

theorem ReadsGroup.throughout {g : Group} (h : ReadsGroup E s g s') (hs : I s) :
    ∀ x ∈ g.all, Q x := by
  cases h with
  | mk _ _ _ ha _ =>
      cases ha with
      | none => exact fun _ hx => by cases hx
      | some _ _ has => exact has.throughout hE (hE.enter _ (hE.past hs))

theorem ReadsGroups.throughout {gs : List Group} (h : ReadsGroups E s gs s') (hs : I s) :
    ∀ x ∈ groupsAll gs, Q x := by
  induction h with
  | stop => exact fun _ hx => by cases hx
  | more hg _ ih =>
      intro x hx
      rcases List.mem_append.mp hx with hx | hx
      · exact hg.throughout hE hs x hx
      · exact ih (hE.inherited (hg.suffix hE.covers) hs) x hx

theorem ReadsFormal.throughout {f : Formal} (h : ReadsFormal E s f s') (hs : I s) :
    ∀ x ∈ f.all, Q x := by
  cases h with
  | required => exact fun _ hx => by cases hx
  | defaulted hi _ _ he => exact hE.holds he (hE.past (hE.behind hi.spans hs))

theorem ReadsSomeFormals.throughout {fs : List Formal} (h : ReadsSomeFormals E s fs s')
    (hs : I s) : ∀ x ∈ formalsAll fs, Q x := by
  induction h with
  | last hf => simpa [formalsAll] using hf.throughout hE hs
  | more hf _ _ _ ih =>
      intro x hx
      rcases List.mem_append.mp hx with hx | hx
      · exact hf.throughout hE hs x hx
      · exact ih (hE.past (hE.behind (hf.spans hE.covers) hs)) x hx

theorem ReadsFormals.throughout {fs : List Formal} (h : ReadsFormals E s fs s') (hs : I s) :
    ∀ x ∈ formalsAll fs, Q x := by
  cases h with
  | none => exact fun _ hx => by cases hx
  | some _ _ hfs => exact hfs.throughout hE hs

theorem ReadsStatements.throughout {es : List Expression} (h : ReadsStatements E close s es s')
    (hs : I s) : ∀ x ∈ statementsAll es, Q x := by
  induction h with
  | skip _ _ _ ih => exact ih (hE.past hs)
  | stop => exact fun _ hx => by cases hx
  | more _ _ _ _ he _ _ _ ih =>
      intro x hx
      rcases List.mem_append.mp hx with hx | hx
      · exact hE.holds he hs x hx
      · exact ih (hE.behind (hE.covers.spans he) hs) x hx

theorem ReadsParens.throughout {e : Expression} (h : ReadsParens E s e s') (hs : I s) :
    ∀ x ∈ e.all, Q x := by
  cases h with
  | mk _ _ he => exact hE.holds he (hE.enter _ (hE.past hs))

theorem ReadsBehind.throughout {m : Nat} {e : Expression} (h : ReadsBehind E m s e s') (hs : I s) :
    ∀ x ∈ e.all, Q x := by
  cases h with
  | mk _ he => exact hE.holds he (hE.afterLines hs)

theorem ReadsOperand.throughout {o : Operand} (h : ReadsOperand E s o s') (hs : I s) :
    ∀ x ∈ o.all, Q x := by
  intro x hx
  have hpast := hE.past hs
  cases h with
  | constant | identifier => cases hx
  | paren he => exact he.throughout hE hs x hx
  | block _ _ hes => exact hes.throughout hE (hE.enter _ hpast) x hx
  | function _ _ _ _ hf _ _ he =>
      have hin := hE.enter .free (hE.past hpast)
      rcases List.mem_append.mp hx with hx | hx
      · exact hf.throughout hE hin x hx
      · have hbehind := hE.behind (hf.spans hE.covers) hin
        exact he.throughout hE (hE.leave (hE.past hbehind)) x hx
  | ifThen _ _ hp he | whileLoop _ _ hp he =>
      rcases List.mem_append.mp hx with hx | hx
      · exact hp.throughout hE hpast x hx
      · exact he.throughout hE (hE.behind (hp.spans hE.covers) hpast) x hx
  | ifElse _ _ hp he _ _ _ _ ho =>
      have hthen := hE.behind (hp.spans hE.covers) hpast
      rcases List.mem_append.mp hx with hx | hx
      · exact hp.throughout hE hpast x hx
      · rcases List.mem_append.mp hx with hx | hx
        · exact he.throughout hE hthen x hx
        · have helse := hE.behind (he.spans hE.covers) hthen
          exact ho.throughout hE (hE.past (hE.afterLines helse)) x hx
  | forLoop _ _ _ _ hi _ _ hq _ _ he =>
      have hseq := hE.past (hE.behind hi.spans (hE.enter .free (hE.past hpast)))
      rcases List.mem_append.mp hx with hx | hx
      · exact hE.holds hq hseq x hx
      · have hbody := hE.past (hE.behind (hE.covers.spans hq) hseq)
        exact he.throughout hE (hE.leave hbody) x hx
  | repeatLoop _ _ he => exact he.throughout hE hpast x hx

theorem ReadsTerm.throughout {t : Term} (h : ReadsTerm E s t s') (hs : I s) :
    ∀ x ∈ t.all, Q x := by
  cases h with
  | mk ho hg =>
      intro x hx
      rcases List.mem_append.mp hx with hx | hx
      · exact ho.throughout hE hs x hx
      · exact hg.throughout hE (hE.behind (ho.spans hE.covers) hs) x hx

end Grammar

end RSource
