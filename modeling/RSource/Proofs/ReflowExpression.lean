import RSource.Proofs.ReflowStatement

/-!
# Expressions and programs, side by side

* `advances_expression` — an expression takes a token at least.
* `matches_operand`, `matches_leading`, `matches_rightOperand`, `matches_operations` — what an
  expression is put together from.
* `pairs_expression` — **an expression comes to the same on both sides**, by induction on the
  levels of nesting.
* `outcome_parseFeed` — **so do two sources**.
-/

namespace RSource

namespace Grammar

open Parse Pairing

variable {P : Pairing} {expr expr' : ExprParse} {b b' : Nat} {s r : Tape} {o : List Bracket}
  {j : Bool}

/-! ## An expression takes a token -/

/-- Nothing is asked of what an expression reads. -/
def ReadsAny : ExprReads := fun _ _ _ _ => True

theorem operand_starts {x : Operand × Tape} (h : (operand expr b).play s = .ok x) : s.AtCode :=
  (readsOperand_of_play (E := ReadsAny) (fun _ _ _ _ _ => trivial)
    (show (operand expr b).play s = .ok (x.1, x.2) from h)).atCode

theorem rightOperand_starts (hA : Advances expr) {op : TokenKind} {power : Power}
    {x : Expression × Tape} (h : (rightOperand expr b op power).play s = .ok x) : s.AtCode := by
  rw [rightOperand] at h
  split at h
  · rw [bind_eq_bind, play_look_ok] at h
    obtain ⟨t, -, h⟩ := h
    obtain ⟨o, s₁, ho, -⟩ := play_bind_ok.mp h
    exact operand_starts ho
  · exact hA.starts (show (expr power.right).play s = .ok (x.1, x.2) from h)

theorem level_starts {m : Nat} {x : Expression × Tape} (h : (level expr b m).play s = .ok x) :
    s.AtCode := by
  have hr := readsLevel_of_play (E := ReadsAny) (fun _ _ _ _ _ => trivial)
    (show (level expr b m).play s = .ok (x.1, x.2) from h)
  cases hr with
  | mk ht hl => exact ⟨_, ht, hl.atCode ht⟩

theorem advances_expression (b levels : Nat) : Advances (expression b levels) where
  starts h := (covers_readsExpression levels).atCode (readsExpression_of_play h)
  shorter h := by
    have hspan := (covers_readsExpression levels).spans (readsExpression_of_play h)
    exact hspan.length_lt (codes_items _ hspan)

/-! ## Operands -/

section Level

variable (hE : Pairs P expr expr' b b')

include hE

theorem matches_operand (h : P.Stands false o s r) (hs : s.Within b) (hr : r.Within b') :
    P.Matches (P.Same Operand.relocate) (P.Stands false o) ((operand expr b).play s)
      ((operand expr' b').play r) := by
  have hstart : ∀ x, (operand expr b).play s = .ok x → s.AtCode := fun _ => operand_starts
  rw [operand, bind_eq_bind] at hstart ⊢
  rw [operand, bind_eq_bind]
  refine h.look_starts hstart fun t u ht hu htu => ?_
  have hconstant := htu.constant
  cases hc : Constant.ofToken? t with
  | some c =>
      obtain ⟨c', hc', hcc⟩ : ∃ c', Constant.ofToken? u = some c' ∧
          c'.relocate P.right = c.relocate P.left := by simpa [hc] using hconstant.symm
      have hleaf : (ConstantKind.ofKind? t.kind).isSome = true := by
        unfold Constant.ofToken? at hc
        split at hc
        · cases hc
        · rename_i hk
          rw [hk]
          rfl
      obtain ⟨hstep, hjoin, hne⟩ := step_leaf (o := o) (k := t.kind) (by simp [hleaf])
      rw [hc']
      refine h.drop ht hu hne fun hp => ?_
      rw [hstep, hjoin] at hp
      exact .ok (congrArg Operand.constant hcc.symm) hp
  | none =>
      have hc' : Constant.ofToken? u = none := by simpa [hc] using hconstant.symm
      have hname : t.kind = .ident ∨ t.kind = .quotedIdent ∨ t.kind = .nextWord ∨
          t.kind = .breakWord →
          P.Matches (P.Same Operand.relocate) (P.Stands false o)
            ((drop.bind fun _ => done (.identifier (.ofToken t))).play s)
            ((drop.bind fun _ => done (.identifier (.ofToken u))).play r) := by
        intro hk
        obtain ⟨hstep, hjoin, hne⟩ := step_leaf (o := o)
          (hk.imp_right (Or.imp_right (Or.imp_right Or.inl)))
        refine h.drop ht hu hne fun hp => ?_
        rw [hstep, hjoin] at hp
        exact .ok (congrArg Operand.identifier htu.identifier) hp
      rw [hc', htu.kind]
      simp only [bind_eq_bind, pure_eq_done]
      split
      case h_5 => exact matches_paren hE h hs hr
      case h_6 => exact matches_block hE h hs hr
      case h_7 => exact matches_function hE h hs hr
      case h_8 => exact matches_ifForm hE h hs hr
      case h_9 => exact matches_forLoop hE h hs hr
      case h_10 => exact matches_whileLoop hE h hs hr
      case h_11 => exact matches_repeatLoop hE h hs hr
      case h_12 => exact h.reject _
      all_goals
        rename_i hk
        exact hname (by simp [hk])

theorem matches_term (h : P.Stands false o s r) (hs : s.Within b) (hr : r.Within b') :
    P.Matches (P.Same Term.relocate) (P.Stands false o) ((term expr b).play s)
      ((term expr' b').play r) := by
  rw [term, term]
  refine (matches_operand hE h hs hr).bind fun x s₁ x' r₁ hx hx' hrel h₁ => ?_
  have hs₁ := hs.of_play hx
  have hr₁ := hr.of_play hx'
  refine (matches_groups hE h₁ hs₁ hr₁ hs₁ hr₁).map fun gs gs' hgs => ?_
  simp [Same, Term.relocate, hrel, hgs]

/-! ## Operators -/

omit hE in
/-- An operator and the line feeds behind it are taken. -/
theorem matches_operator {t u : Token} {α : Type} {R : α → α → Prop} {N : Tape → Tape → Prop}
    {p q : Parse α} (h : P.Stands false o s r) (ht : s.front = .ok t) (hu : r.front = .ok u)
    (hk : t.kind ≠ .eof) (hstep : Scope.step ⟨o, false⟩ t.kind = ⟨o, false⟩)
    (hp : P.Stands false o s.past.afterLines r.past.afterLines →
      P.Matches R N (p.play s.past.afterLines) (q.play r.past.afterLines))
    (hstart : ∀ x, p.play s.past.afterLines = .ok x → s.past.afterLines.AtCode) :
    P.Matches R N ((drop.bind fun _ => dropLines.bind fun _ => p).play s)
      ((drop.bind fun _ => dropLines.bind fun _ => q).play r) := by
  refine h.drop ht hu hk fun h₁ => ?_
  rw [hstep] at h₁
  exact At.dropLines h₁ hp fun x hx => (hstart x hx).tokens_ne_nil

theorem matches_leading {t u : Token} (h : P.Stands false o s r) (ht : s.front = .ok t)
    (hu : r.front = .ok u) (htu : P.Twins t u) (hs : s.Within b) (hr : r.Within b') :
    P.Matches (P.Same Expression.relocate) (P.Stands false o) ((leading expr b t).play s)
      ((leading expr' b' u).play r) := by
  have hbehind : ∀ (m : Nat) (f g : Expression → Expression),
      (∀ e e', P.Same Expression.relocate e e' → P.Same Expression.relocate (f e) (g e')) →
      t.kind ≠ .eof → Scope.step ⟨o, false⟩ t.kind = ⟨o, false⟩ →
      P.Matches (P.Same Expression.relocate) (P.Stands false o)
        ((drop.bind fun _ => dropLines.bind fun _ => (expr m).bind fun e => done (f e)).play s)
        ((drop.bind fun _ => dropLines.bind fun _ =>
          (expr' m).bind fun e => done (g e)).play r) := by
    intro m f g hfg hk hstep
    refine matches_operator h ht hu hk hstep (fun h₁ => ?_) fun x hx => ?_
    · exact (hE.play h₁ hs.past.afterLines hr.past.afterLines).map hfg
    · obtain ⟨e, s₁, he, -⟩ := play_bind_ok.mp hx
      exact hE.left.starts he
  rw [leading, leading, htu.kind]
  split
  · rename_i op hop
    have hk : t.kind ≠ .eof := by
      intro he
      simp [he, UnaryOp.ofKind?] at hop
    refine hbehind op.power _ _ (fun e e' he => ?_) hk (Scope.step_unary hop)
    simp only [Same, Expression.relocate, Term.relocate_ofExpression, htu.loc] at he ⊢
    rw [he]
  · split
    · rename_i hk
      refine hbehind Power.helpTarget _ _ (fun e e' he => ?_) (by simp [hk]) (by rw [hk]; rfl)
      simp only [Same, Expression.relocate, Term.relocate, Operand.relocate, relocateGroups,
        htu.loc] at he ⊢
      rw [he]
    · refine (matches_term hE h hs hr).map fun x x' hx => ?_
      simp [Same, Expression.relocate, htu.loc, hx]

theorem matches_rightOperand {op : TokenKind} {power : Power} (h : P.Stands false o s r)
    (hs : s.Within b) (hr : r.Within b') :
    P.Matches (P.Same Expression.relocate) (P.Stands false o)
      ((rightOperand expr b op power).play s) ((rightOperand expr' b' op power).play r) := by
  have hstart : ∀ x, (rightOperand expr b op power).play s = .ok x → s.AtCode :=
    fun _ => rightOperand_starts hE.left
  rw [rightOperand] at hstart ⊢
  rw [rightOperand]
  split
  · rename_i hop
    rw [if_pos hop, bind_eq_bind] at hstart
    refine h.look_starts hstart fun t u ht hu htu => ?_
    refine (matches_operand hE h hs hr).map fun x x' hx => ?_
    simp [Same, Expression.relocate, Term.relocate, relocateGroups, htu.loc, hx]
  · exact hE.play h hs hr

theorem matches_operations {m n n' : Nat} {loc loc' : Location} {lhs lhs' : Expression}
    (hloc : P.left loc = P.right loc') (hlhs : P.Same Expression.relocate lhs lhs')
    (h : P.Stands false o s r) (hs : s.Within b) (hr : r.Within b') (hn : s.Within n)
    (hn' : r.Within n') :
    P.Matches (P.Same Expression.relocate) (P.Stands false o)
      ((operations expr b m loc n lhs).play s) ((operations expr' b' m loc' n' lhs').play r) := by
  induction n generalizing n' s r lhs lhs' with
  | zero => exact hn.not_zero.elim
  | succ n ih =>
      obtain ⟨n', rfl⟩ := hn'.exists_succ
      rw [operations, operations, bind_eq_bind, bind_eq_bind]
      refine h.look (fun t u ht hu htu => ?_) fun t u _ _ hk _ hk' => ?_
      · rw [htu.kind]
        split
        · rename_i hb
          obtain ⟨k, rfl⟩ := hs.exists_succ
          obtain ⟨k', rfl⟩ := hr.exists_succ
          refine (matches_groups hE h hs hr hs hr).bind fun gs s₁ gs' r₁ hp hp' hgs h₁ => ?_
          refine ih ?_ h₁ (hs.of_play hp) (hr.of_play hp') (within_groups hn ht hb hp)
            (within_groups hn' hu (by rwa [htu.kind]) hp')
          simp [Same, Expression.relocate, Term.relocate, Operand.relocate, hloc, hlhs, hgs]
        · split
          · exact .ok hlhs h
          · rename_i power hp
            split
            · exact .ok hlhs h
            · have hk : t.kind ≠ .eof := by
                intro he
                simp [he, Power.ofKind?] at hp
              have hk' : u.kind ≠ .eof := by rwa [htu.kind]
              refine matches_operator h ht hu hk (Scope.step_power hp) (fun h₁ => ?_) fun x hx => ?_
              · refine (matches_rightOperand hE h₁ hs.past.afterLines hr.past.afterLines).bind
                  fun rhs s₁ rhs' r₁ hx hx' hrhs h₂ => ?_
                have hjoin := joined_relocate htu hloc hlhs hrhs
                cases hj : joined? loc lhs t rhs with
                | none =>
                    have hj' : joined? loc' lhs' u rhs' = none := by simpa [hj] using hjoin.symm
                    rw [hj']
                    exact h₂.reject _
                | some e =>
                    obtain ⟨e', hj', he⟩ : ∃ e', joined? loc' lhs' u rhs' = some e' ∧
                        e'.relocate P.right = e.relocate P.left := by simpa [hj] using hjoin.symm
                    rw [hj']
                    exact ih he.symm h₂ (hs.past.afterLines.of_play hx)
                      (hr.past.afterLines.of_play hx') ((hn.past_lt ht hk).afterLines.of_play hx)
                      ((hn'.past_lt hu hk').afterLines.of_play hx')
              · obtain ⟨rhs, s₁, hrhs, -⟩ := play_bind_ok.mp hx
                exact rightOperand_starts hE.left hrhs
      · simp only [hk, hk']
        exact .ok hlhs h

theorem matches_level {m : Nat} (h : P.Stands false o s r) (hs : s.Within b) (hr : r.Within b') :
    P.Matches (P.Same Expression.relocate) (P.Stands false o) ((level expr b m).play s)
      ((level expr' b' m).play r) := by
  have hstart : ∀ x, (level expr b m).play s = .ok x → s.AtCode := fun _ => level_starts
  rw [level, bind_eq_bind] at hstart ⊢
  rw [level, bind_eq_bind]
  refine h.look_starts hstart fun t u ht hu htu => ?_
  refine (matches_leading hE h ht hu htu hs hr).bind fun e s₁ e' r₁ hp hp' he h₁ => ?_
  have hs₁ := hs.of_play hp
  have hr₁ := hr.of_play hp'
  exact matches_operations hE htu.loc he h₁ hs₁ hr₁ hs₁ hr₁

end Level

/-- **An expression comes to the same on both sides**, whatever bounds the lists in it. -/
theorem pairs_expression (P : Pairing) (b b' levels : Nat) :
    Pairs P (expression b levels) (expression b' levels) b b' := by
  refine ⟨advances_expression b levels, advances_expression b' levels, ?_⟩
  induction levels with
  | zero =>
      intro m o s r h _ _
      exact h.tooDeep
  | succ levels ih =>
      intro m o s r h hs hr
      exact matches_level ⟨advances_expression b levels, advances_expression b' levels, ih⟩ h hs hr

end Grammar

/-! ## Sources -/

/-- The statements that a feed holds, as its tape says. -/
theorem parseFeed_play (s : Feed) :
    parseFeed s =
      ((Grammar.statements (Grammar.expression (s.reader.rest.length + 1) maxNesting) .eof
        (s.reader.rest.length + 1)).play s.tape).map fun x => ⟨x.1⟩ := by
  have hplay := Parse.play_tape (Grammar.program (s.reader.rest.length + 1)) s
  rw [Grammar.program, Parse.bind_eq_bind, Parse.play_bind] at hplay
  rw [parseFeed, Grammar.program, Parse.bind_eq_bind]
  revert hplay
  generalize Parse.run _ s = x
  generalize Parse.play _ s.tape = y
  intro hplay
  cases x <;> cases y <;> simp_all [Except.map]

/-- **Sources side by side come to the same, places apart**, if it always matters how the second
one is parsed. -/
theorem outcome_parseFeed {P : Pairing} (hstrict : ¬ P.lenient) {s r : Feed}
    (h : P.Stands true [] s.tape r.tape) :
    relocateOutcome P.left (parseFeed s) = relocateOutcome P.right (parseFeed r) := by
  have hs := s.within_tape (Nat.lt_succ_self _)
  have hr := r.within_tape (Nat.lt_succ_self _)
  have hm := Grammar.matches_statements
    (Grammar.pairs_expression P (s.reader.rest.length + 1) (r.reader.rest.length + 1) maxNesting)
    .eof (fun ho => hstrict ho.lenient) h hs hr hs hr
  rw [parseFeed_play, parseFeed_play]
  generalize Parse.play _ s.tape = x at hm
  generalize Parse.play _ r.tape = y at hm
  cases hm with
  | ok hes => exact congrArg (fun es => Except.ok (Program.mk es)) hes
  | error he => exact congrArg Except.error he
  | waived hl => exact absurd hl hstrict

end RSource
