import RSource.Proofs.Coverage

/-!
# Whatever is derived is accepted

Each parse of the grammar succeeds on a tape where its relation holds, and reads what the relation
says, if the bound on the number of items exceeds the number of tokens left.

* `Tape.Within` — fewer tokens are left than a bound says.
* `ReadsArgument.play`, `ReadsGroups.play`, `ReadsStatements.play` and the like — one for each
  relation, given the same of the relation of an expression.
* `plays_readsExpression` — **an expression that is derived is parsed**.
-/

namespace RSource

/-! ## Tapes shorter than a bound -/

namespace Tape

variable {s s' : Tape} {t : Token} {n : Nat} {is : List Item}

/-- Fewer tokens are left than the bound says. -/
def Within (s : Tape) (n : Nat) : Prop := s.tokens.length < n

theorem Within.exists_succ (h : s.Within n) : ∃ k, n = k + 1 :=
  Nat.exists_eq_add_one.mpr (Nat.zero_lt_of_lt h)

theorem Within.afterLines (h : s.Within n) : s.afterLines.Within n :=
  Nat.lt_of_le_of_lt (List.dropWhile_suffix _).length_le h

theorem Within.enter {l : Layout} (h : s.Within n) : (s.enter l).Within n := h

theorem Within.leave (h : s.Within n) : s.leave.Within n := h

theorem Within.past (h : s.Within n) : s.past.Within n := by
  have hshown : s.shown.Within n := by
    unfold Tape.shown
    split
    · exact h.afterLines
    · exact h
  exact Nat.lt_of_le_of_lt (List.tail_suffix _).length_le hshown

theorem Within.of_spans (h : s.Within n) (hs : Spans is s s') : s'.Within n :=
  Nat.lt_of_le_of_lt hs.length_le h

/-- Taking a token makes the tape shorter. -/
theorem Within.past_lt (h : s.Within (n + 1)) (ht : s.front = .ok t) (hk : t.kind ≠ .eof) :
    s.past.Within n := by
  obtain ⟨lines, hl, -⟩ := tokens_of_front ht hk
  unfold Within at h ⊢
  rw [hl, List.length_append, List.length_cons] at h
  omega

/-- So does whatever is written with some token. -/
theorem Within.of_spans_lt (h : s.Within (n + 1)) (hs : Spans is s s')
    (hne : Item.codes is ≠ []) : s'.Within n :=
  Nat.lt_of_lt_of_le (hs.length_lt hne) (Nat.le_of_lt_succ h)

/-- Behind the line feeds that stand here what is shown is what stands there. -/
theorem beyond_of_front (ht : s.afterLines.front = .ok t) : ∃ u, s.beyond = .ok u := by
  rw [beyond]
  cases hs : s.afterLines.tokens with
  | cons u us => exact ⟨u, head_cons hs⟩
  | nil =>
      have hnil : s.afterLines.shown.tokens = [] := by rw [shown_tokens, hs]; split <;> rfl
      rw [front, head_nil hnil, shown_ending] at ht
      exact ⟨t, (head_nil hs).trans ht⟩

end Tape

/-- The number of characters left bounds the number of tokens left. -/
theorem Feed.within_tape (s : Feed) {n : Nat} (h : s.reader.rest.length < n) : s.tape.Within n :=
  Nat.lt_of_le_of_lt s.reader.length_remaining h

namespace Grammar

open Parse

/-- What is asked of the parse of an expression: it succeeds where its relation holds. -/
structure Plays (expr : ExprParse) (E : ExprReads) (bound : Nat) : Prop where
  play : ∀ {m : Nat} {s s' : Tape} {e : Expression}, E m s e s' → s.Within bound →
    (expr m).play s = .ok (e, s')

section Complete

variable {expr : ExprParse} {E : ExprReads} {bound : Nat} {s s' : Tape}

/-! ## Lists in brackets -/

theorem ReadsName.play {i : Identifier} (h : ReadsName s i s') : name.play s = .ok (i, s') := by
  cases h with
  | mk ht hk =>
      rw [name, bind_eq_bind, play_look_ok]
      refine ⟨_, ht, ?_⟩
      rw [if_pos hk, bind_eq_bind, play_drop_bind_ok]
      exact ⟨⟨_, ht⟩, rfl⟩

theorem ReadsClosing.play {kind : Brackets} (h : ReadsClosing kind s s') :
    (closing kind).play s = .ok ((), s') := by
  rw [closing, bind_eq_bind, play_demand_ok]
  cases h with
  | single ht hk hne =>
      refine ⟨_, ht, hk, ?_⟩
      rw [if_neg hne]
      rfl
  | double ht hk hu hj ho =>
      refine ⟨_, ht, hk, ?_⟩
      rw [if_pos rfl, secondBracket, bind_eq_bind, play_look_ok]
      refine ⟨_, hu, ?_⟩
      rw [if_pos ⟨hj, ho⟩, play_drop_ok]
      exact ⟨⟨_, hu⟩, rfl⟩

variable (hC : Covers E) (hE : Plays expr E bound)

include hE

theorem ReadsArgument.play {close : TokenKind} {a : Argument} (h : ReadsArgument E close s a s')
    (hb : s.Within bound) : (argument expr close).play s = .ok (a, s') := by
  rw [argument, bind_eq_bind, play_look_ok]
  cases h with
  | @value s' t e ht hn he =>
      refine ⟨t, ht, ?_⟩
      have hvalue : ((expr 0).bind fun e => done (.value e)).play s = .ok (Argument.value e, s') :=
        play_bind_ok.mpr ⟨e, s', hE.play he hb, rfl⟩
      split
      · exact hvalue
      · rename_i n hname
        rw [bind_eq_bind, play_lookSecond_of_argName ht hname]
        rcases hn with hn | ⟨u, hu, hk⟩
        · rw [hname] at hn
          cases hn
        · refine ⟨u, hu, ?_⟩
          rw [if_neg hk]
          exact hvalue
  | @name t u v n ht hn hu hk hv hend =>
      refine ⟨t, ht, ?_⟩
      rw [hn]
      simp only [bind_eq_bind]
      rw [play_lookSecond_of_argName ht hn]
      refine ⟨u, hu, ?_⟩
      simp only [if_pos hk, play_drop_bind_ok, play_look_ok]
      refine ⟨⟨t, ht⟩, ⟨u, hu⟩, v, hv, ?_⟩
      rw [if_pos hend]
      rfl
  | @named s' t u v n e ht hn hu hk hv hend he =>
      refine ⟨t, ht, ?_⟩
      rw [hn]
      simp only [bind_eq_bind]
      rw [play_lookSecond_of_argName ht hn]
      refine ⟨u, hu, ?_⟩
      simp only [if_pos hk, play_drop_bind_ok, play_look_ok]
      refine ⟨⟨t, ht⟩, ⟨u, hu⟩, v, hv, ?_⟩
      rw [if_neg hend]
      exact play_bind_ok.mpr ⟨e, s', hE.play he hb.past.past, rfl⟩

theorem ReadsSlot.play {close : TokenKind} {a : Argument} (h : ReadsSlot E close s a s')
    (hb : s.Within bound) : (slot expr close).play s = .ok (a, s') := by
  rw [slot, bind_eq_bind, play_look_ok]
  cases h with
  | empty ht hk =>
      refine ⟨_, ht, ?_⟩
      rw [if_pos hk]
      rfl
  | filled ht hk ha =>
      refine ⟨_, ht, ?_⟩
      rw [if_neg hk]
      exact ha.play hE hb

include hC

theorem ReadsSlots.play {close : TokenKind} {as : List Argument} {n : Nat}
    (h : ReadsSlots E close s as s') (hb : s.Within bound) (hn : s.Within n) :
    (slots expr close n).play s = .ok (as, s') := by
  induction h generalizing n with
  | last ha hu hc hk =>
      obtain ⟨n, rfl⟩ := hn.exists_succ
      refine play_bind_ok.mpr ⟨_, _, ha.play hE hb, ?_⟩
      rw [bind_eq_bind, play_look_ok]
      refine ⟨_, hu, ?_⟩
      rw [if_neg hc, if_pos hk]
      rfl
  | trailing ha hu hc hv hk =>
      obtain ⟨n, rfl⟩ := hn.exists_succ
      refine play_bind_ok.mpr ⟨_, _, ha.play hE hb, ?_⟩
      rw [bind_eq_bind, play_look_ok]
      refine ⟨_, hu, ?_⟩
      simp only [if_pos hc, bind_eq_bind, play_drop_bind_ok, play_look_ok]
      refine ⟨⟨_, hu⟩, _, hv, ?_⟩
      rw [if_pos hk]
      rfl
  | more ha hu hc hv hk hs ih =>
      obtain ⟨n, rfl⟩ := hn.exists_succ
      refine play_bind_ok.mpr ⟨_, _, ha.play hE hb, ?_⟩
      rw [bind_eq_bind, play_look_ok]
      refine ⟨_, hu, ?_⟩
      simp only [if_pos hc, bind_eq_bind, play_drop_bind_ok, play_look_ok]
      refine ⟨⟨_, hu⟩, _, hv, ?_⟩
      have hspan := ha.spans hC
      have hrest := ih (hb.of_spans hspan).past ((hn.of_spans hspan).past_lt hu (by simp [hc]))
      rw [if_neg hk]
      exact play_bind_ok.mpr ⟨_, _, hrest, rfl⟩

theorem ReadsArguments.play {close : TokenKind} {as : List Argument}
    (h : ReadsArguments E close s as s') (hb : s.Within bound) :
    (arguments expr close bound).play s = .ok (as, s') := by
  rw [arguments, bind_eq_bind, play_look_ok]
  cases h with
  | none ht hk =>
      refine ⟨_, ht, ?_⟩
      rw [if_pos hk]
      rfl
  | some ht hk hs =>
      refine ⟨_, ht, ?_⟩
      rw [if_neg hk]
      exact hs.play hC hE hb hb

theorem ReadsGroup.play {t : Token} {kind : Brackets} {g : Group} (h : ReadsGroup E s g s')
    (ht : s.front = .ok t) (hk : Brackets.ofKind? t.kind = some kind) (hb : s.Within bound) :
    (group expr bound kind).play s = .ok (g, s') := by
  cases h with
  | @mk s₁ s₂ u v kind' as hu hk' hv ha hc =>
      rw [ht] at hu
      cases hu
      rw [hk] at hk'
      cases hk'
      rw [group]
      simp only [bind_eq_bind, pure_eq_done, play_drop_bind_ok, play_opened_ok, play_look_ok]
      refine ⟨⟨t, ht⟩, v, hv, ?_⟩
      refine play_bind_ok.mpr ⟨_, _, ha.play hC hE hb.past.enter, ?_⟩
      refine play_bind_ok.mpr ⟨_, _, hc.play, ?_⟩
      rw [play_closed_ok]
      rfl

omit hE in
/-- A call or subscript takes a token at least. -/
theorem ReadsGroup.within {g : Group} {n : Nat} (h : ReadsGroup E s g s')
    (hn : s.Within (n + 1)) : s'.Within n := by
  have hspan : Spans (g.items []) s s' := h.spans hC
  refine hn.of_spans_lt hspan ?_
  cases g
  simp [Group.items, Item.word, Item.codes]

theorem ReadsGroups.play {gs : List Group} {n : Nat} (h : ReadsGroups E s gs s')
    (hb : s.Within bound) (hn : s.Within n) : (groups expr bound n).play s = .ok (gs, s') := by
  induction h generalizing n with
  | stop ht hk =>
      obtain ⟨n, rfl⟩ := hn.exists_succ
      rw [groups, bind_eq_bind, play_look_ok]
      refine ⟨_, ht, ?_⟩
      rw [hk]
      rfl
  | @more s s₁ s' g gs hg hs ih =>
      obtain ⟨n, rfl⟩ := hn.exists_succ
      have hspan : Spans (g.items []) s s₁ := hg.spans hC
      obtain ⟨t, kind, ht, hk⟩ :
          ∃ t kind, s.front = .ok t ∧ Brackets.ofKind? t.kind = some kind := by
        cases hg with
        | mk ht hk => exact ⟨_, _, ht, hk⟩
      rw [groups, bind_eq_bind, play_look_ok]
      refine ⟨t, ht, ?_⟩
      rw [hk]
      refine play_bind_ok.mpr ⟨g, s₁, hg.play hC hE ht hk hb, ?_⟩
      exact play_bind_ok.mpr ⟨gs, s', ih (hb.of_spans hspan) (hg.within hC hn), rfl⟩

omit hE in
theorem ReadsGroups.within {t : Token} {gs : List Group} {n : Nat} (h : ReadsGroups E s gs s')
    (ht : s.front = .ok t) (hk : (Brackets.ofKind? t.kind).isSome = true)
    (hn : s.Within (n + 1)) : s'.Within n := by
  cases h with
  | stop hu hnone =>
      rw [ht] at hu
      cases hu
      rw [hnone] at hk
      cases hk
  | @more _ s₁ _ g gs hg hs =>
      have hspan : Spans (groupItems [] gs) s₁ s' := hs.spans hC
      exact (hg.within hC hn).of_spans hspan

omit hC in
theorem ReadsFormal.play {f : Formal} (h : ReadsFormal E s f s') (hb : s.Within bound) :
    (formal expr).play s = .ok (f, s') := by
  cases h with
  | required hi ht hk =>
      refine play_bind_ok.mpr ⟨_, _, hi.play, ?_⟩
      rw [bind_eq_bind, play_look_ok]
      refine ⟨_, ht, ?_⟩
      rw [if_neg hk]
      rfl
  | defaulted hi ht hk he =>
      refine play_bind_ok.mpr ⟨_, _, hi.play, ?_⟩
      rw [bind_eq_bind, play_look_ok]
      refine ⟨_, ht, ?_⟩
      rw [if_pos hk, bind_eq_bind, play_drop_bind_ok]
      exact ⟨⟨_, ht⟩, play_bind_ok.mpr ⟨_, _, hE.play he (hb.of_spans hi.spans).past, rfl⟩⟩

theorem ReadsSomeFormals.play {fs : List Formal} {n : Nat} (h : ReadsSomeFormals E s fs s')
    (hb : s.Within bound) (hn : s.Within n) :
    (someFormals expr n).play s = .ok (fs, s') := by
  induction h generalizing n with
  | last hf ht hk =>
      obtain ⟨n, rfl⟩ := hn.exists_succ
      refine play_bind_ok.mpr ⟨_, _, hf.play hE hb, ?_⟩
      rw [bind_eq_bind, play_look_ok]
      refine ⟨_, ht, ?_⟩
      rw [if_neg (by simp [hk]), if_pos hk]
      rfl
  | more hf ht hk hs ih =>
      obtain ⟨n, rfl⟩ := hn.exists_succ
      have hspan := hf.spans hC
      have hrest := ih (hb.of_spans hspan).past ((hn.of_spans hspan).past_lt ht (by simp [hk]))
      refine play_bind_ok.mpr ⟨_, _, hf.play hE hb, ?_⟩
      rw [bind_eq_bind, play_look_ok]
      refine ⟨_, ht, ?_⟩
      rw [if_pos hk, bind_eq_bind, play_drop_bind_ok]
      exact ⟨⟨_, ht⟩, play_bind_ok.mpr ⟨_, _, hrest, rfl⟩⟩

theorem ReadsFormals.play {fs : List Formal} (h : ReadsFormals E s fs s') (hb : s.Within bound) :
    (formals expr bound).play s = .ok (fs, s') := by
  rw [formals, bind_eq_bind, play_look_ok]
  cases h with
  | none ht hk =>
      refine ⟨_, ht, ?_⟩
      rw [if_pos hk]
      rfl
  | some ht hk hs =>
      refine ⟨_, ht, ?_⟩
      rw [if_neg hk]
      exact hs.play hC hE hb hb

/-! ## Statements and operands -/

omit hC hE in
/-- Whether a token is a constant depends on its kind. -/
theorem constant_of_kind {t : Token} {k : TokenKind} (hk : t.kind = k)
    (h : ConstantKind.ofKind? k = none) : Constant.ofToken? t = none := by
  rw [Constant.ofToken?, hk, h]

theorem ReadsStatements.play {close : TokenKind} {es : List Expression} {n : Nat}
    (h : ReadsStatements E close s es s') (hb : s.Within bound) (hn : s.Within n) :
    (statements expr close n).play s = .ok (es, s') := by
  induction h generalizing n with
  | skip ht hk hs ih =>
      obtain ⟨n, rfl⟩ := hn.exists_succ
      rw [statements, bind_eq_bind, play_look_ok]
      refine ⟨_, ht, ?_⟩
      rw [if_pos hk, bind_eq_bind, play_drop_bind_ok]
      exact ⟨⟨_, ht⟩, ih hb.past (hn.past_lt ht (by rintro he; simp [he, separates] at hk))⟩
  | stop ht hk hsep =>
      obtain ⟨n, rfl⟩ := hn.exists_succ
      rw [statements, bind_eq_bind, play_look_ok]
      refine ⟨_, ht, ?_⟩
      rw [if_neg (by simp [hsep]), if_pos hk]
      rfl
  | more ht hsep hc heof he hu hf hs ih =>
      obtain ⟨n, rfl⟩ := hn.exists_succ
      have hspan := hC.spans he
      have hrest := ih (hb.of_spans hspan) (hn.of_spans_lt hspan (codes_items _ hspan))
      rw [statements, bind_eq_bind, play_look_ok]
      refine ⟨_, ht, ?_⟩
      rw [if_neg (by simp [hsep]), if_neg hc, if_neg heof]
      refine play_bind_ok.mpr ⟨_, _, hE.play he hb, ?_⟩
      rw [bind_eq_bind, play_look_ok]
      refine ⟨_, hu, ?_⟩
      rw [mayFollow] at hf
      rw [if_pos hf]
      exact play_bind_ok.mpr ⟨_, _, hrest, rfl⟩

omit hC in
theorem ReadsParens.play {e : Expression} (h : ReadsParens E s e s') (hb : s.Within bound) :
    (parenthesized expr).play s = .ok (e, s') := by
  cases h with
  | mk ht hk he hu hc =>
      simp only [parenthesized, bind_eq_bind, play_demand_ok, play_opened_ok]
      refine ⟨_, ht, hk, play_bind_ok.mpr ⟨_, _, hE.play he hb.past.enter, ?_⟩⟩
      simp only [play_demand_ok, play_closed_ok]
      exact ⟨_, hu, hc, rfl⟩

omit hC in
theorem ReadsBehind.play {m : Nat} {e : Expression} (h : ReadsBehind E m s e s')
    (hb : s.Within bound) : (dropLines.bind fun _ => expr m).play s = .ok (e, s') := by
  cases h with
  | mk ht he =>
      rw [play_dropLines_ok]
      exact ⟨⟨_, ht⟩, hE.play he hb.afterLines⟩

omit hC in
theorem ReadsBehind.play_body {e : Expression} (h : ReadsBehind E 0 s e s')
    (hb : s.Within bound) : (body expr).play s = .ok (e, s') :=
  h.play hE hb

theorem ReadsOperand.play {o : Operand} (h : ReadsOperand E s o s') (hb : s.Within bound) :
    (operand expr bound).play s = .ok (o, s') := by
  rw [operand, bind_eq_bind, play_look_ok]
  cases h with
  | constant ht hc =>
      refine ⟨_, ht, ?_⟩
      rw [hc]
      simp only [bind_eq_bind, play_drop_bind_ok]
      exact ⟨⟨_, ht⟩, rfl⟩
  | identifier ht hk =>
      refine ⟨_, ht, ?_⟩
      rcases hk with hk | hk | hk | hk <;>
      · rw [constant_of_kind hk rfl, hk]
        simp only [bind_eq_bind, play_drop_bind_ok]
        exact ⟨⟨_, ht⟩, rfl⟩
  | paren he =>
      have hp := he.play hE hb
      cases he with
      | mk ht hk =>
          refine ⟨_, ht, ?_⟩
          rw [constant_of_kind hk rfl, hk]
          exact play_bind_ok.mpr ⟨_, _, hp, rfl⟩
  | block ht hk hs hu hc =>
      refine ⟨_, ht, ?_⟩
      rw [constant_of_kind hk rfl, hk]
      simp only [Grammar.block, bind_eq_bind, play_demand_ok, play_opened_ok]
      have hin := hb.past.enter (l := .lined)
      refine ⟨_, ht, hk, play_bind_ok.mpr ⟨_, _, hs.play hC hE hin hin, ?_⟩⟩
      simp only [play_demand_ok, play_closed_ok]
      exact ⟨_, hu, hc, rfl⟩
  | function ht hk hu ho hf hv hc he =>
      have hin := hb.past.past.enter (l := .free)
      have hbody := (hin.of_spans (hf.spans hC)).past.leave
      refine ⟨_, ht, ?_⟩
      rw [constant_of_kind hk rfl, hk]
      simp only [Grammar.function, bind_eq_bind, play_demand_ok, play_opened_ok]
      refine ⟨_, ht, hk, _, hu, ho, play_bind_ok.mpr ⟨_, _, hf.play hC hE hin, ?_⟩⟩
      simp only [play_demand_ok, play_closed_ok]
      exact ⟨_, hv, hc, play_bind_ok.mpr ⟨_, _, he.play_body hE hbody, rfl⟩⟩
  | ifThen ht hk hp he hx hne =>
      have hbody := hb.past.of_spans (hp.spans hC)
      refine ⟨_, ht, ?_⟩
      rw [constant_of_kind hk rfl, hk]
      simp only [ifForm, bind_eq_bind, play_demand_ok]
      refine ⟨_, ht, hk, play_bind_ok.mpr ⟨_, _, hp.play hE hb.past, ?_⟩⟩
      refine play_bind_ok.mpr ⟨_, _, he.play_body hE hbody, ?_⟩
      rw [play_elseFollows_ok]
      refine ⟨_, hx, ?_⟩
      rw [if_neg (by simpa using hne)]
      rfl
  | ifElse ht hk hp he hx hj hy hi ho =>
      have hbody := hb.past.of_spans (hp.spans hC)
      have hother := (hbody.of_spans (he.spans hC)).afterLines.past
      refine ⟨_, ht, ?_⟩
      rw [constant_of_kind hk rfl, hk]
      simp only [ifForm, bind_eq_bind, play_demand_ok]
      refine ⟨_, ht, hk, play_bind_ok.mpr ⟨_, _, hp.play hE hb.past, ?_⟩⟩
      refine play_bind_ok.mpr ⟨_, _, he.play_body hE hbody, ?_⟩
      rw [play_elseFollows_ok]
      refine ⟨_, hx, ?_⟩
      simp only [hj, beq_self_eq_true, if_true, play_dropLines_ok, play_demand_ok]
      refine ⟨Tape.beyond_of_front hy, _, hy, hi, ?_⟩
      exact play_bind_ok.mpr ⟨_, _, ho.play_body hE hother, rfl⟩
  | forLoop ht hk hu ho hi hv hin hq hw hc he =>
      have hhead := hb.past.past.enter (l := .free)
      have hseq := (hhead.of_spans hi.spans).past
      have hbody := (hseq.of_spans (hC.spans hq)).past.leave
      refine ⟨_, ht, ?_⟩
      rw [constant_of_kind hk rfl, hk]
      simp only [Grammar.forLoop, bind_eq_bind, play_demand_ok, play_opened_ok]
      refine ⟨_, ht, hk, _, hu, ho, play_bind_ok.mpr ⟨_, _, hi.play, ?_⟩⟩
      simp only [play_demand_ok]
      refine ⟨_, hv, hin, play_bind_ok.mpr ⟨_, _, hE.play hq hseq, ?_⟩⟩
      simp only [play_demand_ok, play_closed_ok]
      exact ⟨_, hw, hc, play_bind_ok.mpr ⟨_, _, he.play_body hE hbody, rfl⟩⟩
  | whileLoop ht hk hp he =>
      refine ⟨_, ht, ?_⟩
      rw [constant_of_kind hk rfl, hk]
      simp only [Grammar.whileLoop, bind_eq_bind, play_demand_ok]
      refine ⟨_, ht, hk, play_bind_ok.mpr ⟨_, _, hp.play hE hb.past, ?_⟩⟩
      exact play_bind_ok.mpr ⟨_, _, he.play_body hE (hb.past.of_spans (hp.spans hC)), rfl⟩
  | repeatLoop ht hk he =>
      refine ⟨_, ht, ?_⟩
      rw [constant_of_kind hk rfl, hk]
      simp only [Grammar.repeatLoop, bind_eq_bind, play_demand_ok]
      exact ⟨_, ht, hk, play_bind_ok.mpr ⟨_, _, he.play_body hE hb.past, rfl⟩⟩

theorem ReadsTerm.play {x : Term} (h : ReadsTerm E s x s') (hb : s.Within bound) :
    (term expr bound).play s = .ok (x, s') := by
  cases h with
  | mk ho hg =>
      have hrest := hb.of_spans (ho.spans hC)
      refine play_bind_ok.mpr ⟨_, _, ho.play hC hE hb, ?_⟩
      exact play_bind_ok.mpr ⟨_, _, hg.play hC hE hrest hrest, rfl⟩

/-! ## Operators -/

theorem ReadsLeading.play {t : Token} {e : Expression} (h : ReadsLeading E t s e s')
    (ht : s.front = .ok t) (hb : s.Within bound) :
    (leading expr bound t).play s = .ok (e, s') := by
  rw [leading]
  cases h with
  | unary hop he =>
      cases he with
      | mk hu he =>
          rw [hop]
          simp only [bind_eq_bind, play_drop_bind_ok, play_dropLines_ok]
          refine ⟨⟨t, ht⟩, ⟨_, hu⟩, ?_⟩
          exact play_bind_ok.mpr ⟨_, _, hE.play he hb.past.afterLines, rfl⟩
  | help hk he =>
      cases he with
      | mk hu he =>
          have hop : UnaryOp.ofKind? t.kind = none := by rw [hk]; rfl
          rw [hop]
          simp only [if_pos hk, bind_eq_bind, play_drop_bind_ok, play_dropLines_ok]
          refine ⟨⟨t, ht⟩, ⟨_, hu⟩, ?_⟩
          exact play_bind_ok.mpr ⟨_, _, hE.play he hb.past.afterLines, rfl⟩
  | term hop hk hx =>
      rw [hop]
      simp only [if_neg hk]
      exact play_bind_ok.mpr ⟨_, _, hx.play hC hE hb, rfl⟩

theorem ReadsRight.play {op : TokenKind} {power : Power} {e : Expression}
    (h : ReadsRight E op power s e s') (hb : s.Within bound) :
    (rightOperand expr bound op power).play s = .ok (e, s') := by
  rw [rightOperand]
  cases h with
  | bare hop ht ho =>
      rw [if_pos hop, bind_eq_bind, play_look_ok]
      exact ⟨_, ht, play_bind_ok.mpr ⟨_, _, ho.play hC hE hb, rfl⟩⟩
  | full hop he =>
      rw [if_neg hop]
      exact hE.play he hb

theorem ReadsOperations.play {m n : Nat} {loc : Location} {lhs e : Expression}
    (h : ReadsOperations E m loc lhs s e s') (hb : s.Within bound) (hn : s.Within n) :
    (operations expr bound m loc n lhs).play s = .ok (e, s') := by
  induction h generalizing n with
  | stop ht hbrackets hp =>
      obtain ⟨n, rfl⟩ := hn.exists_succ
      rw [operations, bind_eq_bind, play_look_ok]
      refine ⟨_, ht, ?_⟩
      rw [if_neg (by simp [hbrackets])]
      split
      · rfl
      · rename_i p hpow
        rw [if_pos (hp p hpow)]
        rfl
  | @groups s s₁ s' t lhs e gs ht hbrackets hg ho ih =>
      obtain ⟨n, rfl⟩ := hn.exists_succ
      have hspan : Spans (groupItems [] gs) s s₁ := hg.spans hC
      have hrest := ih (hb.of_spans hspan) (hg.within hC ht hbrackets hn)
      rw [operations, bind_eq_bind, play_look_ok]
      refine ⟨_, ht, ?_⟩
      rw [if_pos hbrackets]
      exact play_bind_ok.mpr ⟨_, _, hg.play hC hE hb hb, hrest⟩
  | operator ht hbrackets hp hm hu hr hj ho ih =>
      obtain ⟨n, rfl⟩ := hn.exists_succ
      have hne : Token.kind _ ≠ .eof := fun he => by rw [he] at hp; cases hp
      have hspan := hr.spans hC
      have hshort := (hn.past_lt ht hne).afterLines
      have hrest := ih (hb.past.afterLines.of_spans hspan) (hshort.of_spans hspan)
      rw [operations, bind_eq_bind, play_look_ok]
      refine ⟨_, ht, ?_⟩
      rw [if_neg (by simp [hbrackets]), hp]
      simp only [if_neg (Nat.not_lt.mpr hm), bind_eq_bind, play_drop_bind_ok, play_dropLines_ok]
      refine ⟨⟨_, ht⟩, ⟨_, hu⟩, play_bind_ok.mpr ⟨_, _, hr.play hC hE hb.past.afterLines, ?_⟩⟩
      rw [hj]
      exact hrest

theorem ReadsLevel.play {m : Nat} {e : Expression} (h : ReadsLevel E m s e s')
    (hb : s.Within bound) : (level expr bound m).play s = .ok (e, s') := by
  cases h with
  | mk ht hl ho =>
      have hrest := hb.of_spans (hl.spans hC ht).1
      rw [level, bind_eq_bind, play_look_ok]
      refine ⟨_, ht, play_bind_ok.mpr ⟨_, _, hl.play hC hE ht hb, ?_⟩⟩
      exact ho.play hC hE hrest hrest

end Complete

/-- **An expression that is derived is parsed.** -/
theorem plays_readsExpression (bound levels : Nat) :
    Plays (expression bound levels) (ReadsExpression levels) bound := by
  induction levels with
  | zero => exact ⟨fun h => h.elim⟩
  | succ levels ih => exact ⟨fun h hb => ReadsLevel.play (covers_readsExpression levels) ih h hb⟩

end Grammar

end RSource
