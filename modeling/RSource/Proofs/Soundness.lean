import RSource.Proofs.Derivation

/-!
# Whatever is accepted is derived

Each parse of the grammar, when it succeeds on a tape, has read what its relation says.

* `readsArgument_of_play`, `readsGroups_of_play`, `readsStatements_of_play` and the like — one for
  each parse, given the same of the parse of an expression.
* `readsExpression_of_play` — an expression, by induction on the levels of nesting allowed.
* `readsProgram_of_parse` — **the statements of an accepted source are derived from its tokens**.
-/

namespace RSource.Grammar

open Parse

section Sound

variable {expr : ExprParse} {E : ExprReads} {bound : Nat} {s s' : Tape}

theorem readsName_of_play {i : Identifier} (h : name.play s = .ok (i, s')) : ReadsName s i s' := by
  rw [name, bind_eq_bind, play_look_ok] at h
  obtain ⟨t, ht, h⟩ := h
  split at h
  · rename_i hk
    rw [bind_eq_bind, play_drop_bind_ok] at h
    obtain ⟨_, h⟩ := h
    cases h
    exact .mk ht hk
  · exact absurd h play_reject_ne_ok

theorem play_name_ok {f : Identifier → Parse Formal} {r : Formal × Tape} :
    (name.bind f).play s = .ok r → ∃ i s₁, ReadsName s i s₁ ∧ (f i).play s₁ = .ok r := by
  intro h
  obtain ⟨i, s₁, hi, h⟩ := play_bind_ok.mp h
  exact ⟨i, s₁, readsName_of_play hi, h⟩

variable (hE : ∀ m s e s', (expr m).play s = .ok (e, s') → E m s e s')

include hE

theorem readsArgument_of_play {close : TokenKind} {a : Argument}
    (h : (argument expr close).play s = .ok (a, s')) : ReadsArgument E close s a s' := by
  rw [argument, bind_eq_bind, play_look_ok] at h
  obtain ⟨t, ht, h⟩ := h
  split at h
  · rename_i hn
    obtain ⟨e, s₁, he, h⟩ := play_bind_ok.mp h
    cases h
    exact .value ht (Or.inl hn) (hE _ _ _ _ he)
  · rename_i n hn
    rw [bind_eq_bind, play_lookSecond_of_argName ht hn] at h
    obtain ⟨u, hu, h⟩ := h
    split at h
    · rename_i hk
      simp only [bind_eq_bind, play_drop_bind_ok, play_look_ok] at h
      obtain ⟨_, _, v, hv, h⟩ := h
      split at h
      · rename_i hend
        cases h
        exact .name ht hn hu hk hv hend
      · rename_i hend
        obtain ⟨e, s₁, he, h⟩ := play_bind_ok.mp h
        cases h
        exact .named ht hn hu hk hv hend (hE _ _ _ _ he)
    · rename_i hk
      obtain ⟨e, s₁, he, h⟩ := play_bind_ok.mp h
      cases h
      exact .value ht (Or.inr ⟨u, hu, hk⟩) (hE _ _ _ _ he)

theorem readsSlot_of_play {close : TokenKind} {a : Argument}
    (h : (slot expr close).play s = .ok (a, s')) : ReadsSlot E close s a s' := by
  rw [slot, bind_eq_bind, play_look_ok] at h
  obtain ⟨t, ht, h⟩ := h
  split at h
  · rename_i hk
    cases h
    exact .empty ht hk
  · rename_i hk
    exact .filled ht hk (readsArgument_of_play hE h)

theorem readsSlots_of_play {close : TokenKind} {as : List Argument}
    (h : (slots expr close bound).play s = .ok (as, s')) : ReadsSlots E close s as s' := by
  induction bound generalizing s as with
  | zero => exact absurd h play_outOfBound_ne_ok
  | succ bound ih =>
      rw [slots] at h
      obtain ⟨a, s₁, ha, h⟩ := play_bind_ok.mp h
      have ha := readsSlot_of_play hE ha
      rw [bind_eq_bind, play_look_ok] at h
      obtain ⟨u, hu, h⟩ := h
      split at h
      · rename_i hc
        simp only [bind_eq_bind, play_drop_bind_ok, play_look_ok] at h
        obtain ⟨_, v, hv, h⟩ := h
        split at h
        · rename_i hk
          cases h
          exact .trailing ha hu hc hv hk
        · rename_i hk
          obtain ⟨bs, s₂, hbs, h⟩ := play_bind_ok.mp h
          cases h
          exact .more ha hu hc hv hk (ih hbs)
      · rename_i hc
        split at h
        · rename_i hk
          cases h
          exact .last ha hu hc hk
        · exact absurd h play_reject_ne_ok

theorem readsArguments_of_play {close : TokenKind} {as : List Argument}
    (h : (arguments expr close bound).play s = .ok (as, s')) : ReadsArguments E close s as s' := by
  rw [arguments, bind_eq_bind, play_look_ok] at h
  obtain ⟨t, ht, h⟩ := h
  split at h
  · rename_i hk
    cases h
    exact .none ht hk
  · rename_i hk
    exact .some ht hk (readsSlots_of_play hE h)

omit hE in
theorem readsClosing_of_play {kind : Brackets} {u : Unit}
    (h : (closing kind).play s = .ok (u, s')) : ReadsClosing kind s s' := by
  rw [closing, bind_eq_bind, play_demand_ok] at h
  obtain ⟨t, ht, hk, h⟩ := h
  split at h
  · rename_i hkind
    subst hkind
    rw [secondBracket, bind_eq_bind, play_look_ok] at h
    obtain ⟨v, hv, h⟩ := h
    split at h
    · rename_i hj
      obtain ⟨_, h⟩ := play_drop_ok.mp h
      cases h
      exact .double ht hk hv hj.1 hj.2
    · exact absurd h play_reject_ne_ok
  · rename_i hne
    cases h
    exact .single ht hk hne

theorem readsGroup_of_play {t : Token} {kind : Brackets} {g : Group} (ht : s.front = .ok t)
    (hk : Brackets.ofKind? t.kind = some kind) (h : (group expr bound kind).play s = .ok (g, s')) :
    ReadsGroup E s g s' := by
  rw [group] at h
  simp only [bind_eq_bind, pure_eq_done, play_drop_bind_ok, play_opened_ok, play_look_ok] at h
  obtain ⟨_, u, hu, h⟩ := h
  obtain ⟨as, s₁, has, h⟩ := play_bind_ok.mp h
  obtain ⟨_, s₂, hc, h⟩ := play_bind_ok.mp h
  rw [play_closed_ok] at h
  cases h
  exact .mk ht hk hu (readsArguments_of_play hE has) (readsClosing_of_play hc)

theorem readsGroups_of_play {n : Nat} {gs : List Group}
    (h : (groups expr bound n).play s = .ok (gs, s')) : ReadsGroups E s gs s' := by
  induction n generalizing s gs with
  | zero => exact absurd h play_outOfBound_ne_ok
  | succ n ih =>
      rw [groups, bind_eq_bind, play_look_ok] at h
      obtain ⟨t, ht, h⟩ := h
      split at h
      · rename_i hk
        cases h
        exact .stop ht hk
      · rename_i kind hk
        obtain ⟨g, s₁, hg, h⟩ := play_bind_ok.mp h
        obtain ⟨gs', s₂, hgs, h⟩ := play_bind_ok.mp h
        cases h
        exact .more (readsGroup_of_play hE ht hk hg) (ih hgs)

theorem readsFormal_of_play {f : Formal} (h : (formal expr).play s = .ok (f, s')) :
    ReadsFormal E s f s' := by
  rw [formal] at h
  obtain ⟨i, s₁, hi, h⟩ := play_name_ok h
  rw [bind_eq_bind, play_look_ok] at h
  obtain ⟨t, ht, h⟩ := h
  split at h
  · rename_i hk
    rw [bind_eq_bind, play_drop_bind_ok] at h
    obtain ⟨_, h⟩ := h
    obtain ⟨e, s₂, he, h⟩ := play_bind_ok.mp h
    cases h
    exact .defaulted hi ht hk (hE _ _ _ _ he)
  · rename_i hk
    cases h
    exact .required hi ht hk

theorem readsSomeFormals_of_play {fs : List Formal}
    (h : (someFormals expr bound).play s = .ok (fs, s')) : ReadsSomeFormals E s fs s' := by
  induction bound generalizing s fs with
  | zero => exact absurd h play_outOfBound_ne_ok
  | succ bound ih =>
      rw [someFormals] at h
      obtain ⟨f, s₁, hf, h⟩ := play_bind_ok.mp h
      have hf := readsFormal_of_play hE hf
      rw [bind_eq_bind, play_look_ok] at h
      obtain ⟨t, ht, h⟩ := h
      split at h
      · rename_i hk
        rw [bind_eq_bind, play_drop_bind_ok] at h
        obtain ⟨_, h⟩ := h
        obtain ⟨fs', s₂, hfs, h⟩ := play_bind_ok.mp h
        cases h
        exact .more hf ht hk (ih hfs)
      · split at h
        · rename_i hk
          cases h
          exact .last hf ht hk
        · exact absurd h play_reject_ne_ok

theorem readsFormals_of_play {fs : List Formal} (h : (formals expr bound).play s = .ok (fs, s')) :
    ReadsFormals E s fs s' := by
  rw [formals, bind_eq_bind, play_look_ok] at h
  obtain ⟨t, ht, h⟩ := h
  split at h
  · rename_i hk
    cases h
    exact .none ht hk
  · rename_i hk
    exact .some ht hk (readsSomeFormals_of_play hE h)

/-! ## Statements and operands -/

theorem readsStatements_of_play {close : TokenKind} {es : List Expression}
    (h : (statements expr close bound).play s = .ok (es, s')) :
    ReadsStatements E close s es s' := by
  induction bound generalizing s es with
  | zero => exact absurd h play_outOfBound_ne_ok
  | succ bound ih =>
      rw [statements, bind_eq_bind, play_look_ok] at h
      obtain ⟨t, ht, h⟩ := h
      split at h
      · rename_i hk
        rw [bind_eq_bind, play_drop_bind_ok] at h
        exact .skip ht hk (ih h.2)
      · rename_i hsep
        have hsep : separates t.kind = false := by simpa using hsep
        split at h
        · rename_i hc
          cases h
          exact .stop ht hc hsep
        · rename_i hc
          split at h
          · exact absurd h play_reject_ne_ok
          · rename_i heof
            obtain ⟨e, s₁, he, h⟩ := play_bind_ok.mp h
            rw [bind_eq_bind, play_look_ok] at h
            obtain ⟨u, hu, h⟩ := h
            split at h
            · rename_i hf
              obtain ⟨es', s₂, hes, h⟩ := play_bind_ok.mp h
              cases h
              exact .more ht hsep hc heof (hE _ _ _ _ he) hu hf (ih hes)
            · exact absurd h play_reject_ne_ok

theorem readsParens_of_play {e : Expression} (h : (parenthesized expr).play s = .ok (e, s')) :
    ReadsParens E s e s' := by
  simp only [parenthesized, bind_eq_bind, play_demand_ok, play_opened_ok] at h
  obtain ⟨t, ht, hk, h⟩ := h
  obtain ⟨e', s₁, he, h⟩ := play_bind_ok.mp h
  simp only [play_demand_ok, play_closed_ok] at h
  obtain ⟨u, hu, hc, h⟩ := h
  cases h
  exact .mk ht hk (hE _ _ _ _ he) hu hc

theorem readsBehind_of_play {m : Nat} {e : Expression}
    (h : (dropLines.bind fun _ => expr m).play s = .ok (e, s')) : ReadsBehind E m s e s' := by
  rw [play_dropLines_ok] at h
  obtain ⟨⟨t, ht⟩, h⟩ := h
  exact .mk ht (hE _ _ _ _ h)

theorem readsBehind_of_play_body {e : Expression} (h : (body expr).play s = .ok (e, s')) :
    ReadsBehind E 0 s e s' :=
  readsBehind_of_play hE h

theorem readsOperand_of_play_block {o : Operand} (h : (block expr bound).play s = .ok (o, s')) :
    ReadsOperand E s o s' := by
  simp only [block, bind_eq_bind, play_demand_ok, play_opened_ok] at h
  obtain ⟨t, ht, hk, h⟩ := h
  obtain ⟨es, s₁, hes, h⟩ := play_bind_ok.mp h
  simp only [play_demand_ok, play_closed_ok] at h
  obtain ⟨u, hu, hc, h⟩ := h
  cases h
  exact .block ht hk (readsStatements_of_play hE hes) hu hc

theorem readsOperand_of_play_function {o : Operand}
    (h : (function expr bound).play s = .ok (o, s')) : ReadsOperand E s o s' := by
  simp only [function, bind_eq_bind, play_demand_ok, play_opened_ok] at h
  obtain ⟨t, ht, hk, u, hu, ho, h⟩ := h
  obtain ⟨fs, s₁, hfs, h⟩ := play_bind_ok.mp h
  simp only [play_demand_ok, play_closed_ok] at h
  obtain ⟨v, hv, hc, h⟩ := h
  obtain ⟨e, s₂, he, h⟩ := play_bind_ok.mp h
  cases h
  exact .function ht hk hu ho (readsFormals_of_play hE hfs) hv hc (readsBehind_of_play_body hE he)

theorem readsOperand_of_play_ifForm {o : Operand} (h : (ifForm expr).play s = .ok (o, s')) :
    ReadsOperand E s o s' := by
  simp only [ifForm, bind_eq_bind, play_demand_ok] at h
  obtain ⟨t, ht, hk, h⟩ := h
  obtain ⟨c, s₁, hc, h⟩ := play_bind_ok.mp h
  obtain ⟨e, s₂, he, h⟩ := play_bind_ok.mp h
  have hc := readsParens_of_play hE hc
  have he := readsBehind_of_play_body hE he
  rw [play_elseFollows_ok] at h
  obtain ⟨x, hx, h⟩ := h
  split at h
  · rename_i hj
    simp only [play_dropLines_ok, play_demand_ok] at h
    obtain ⟨_, y, hy, hi, h⟩ := h
    obtain ⟨o', s₃, ho, h⟩ := play_bind_ok.mp h
    cases h
    exact .ifElse ht hk hc he hx (by simpa using hj) hy hi (readsBehind_of_play_body hE ho)
  · rename_i hne
    cases h
    exact .ifThen ht hk hc he hx (by simpa using hne)

theorem readsOperand_of_play_forLoop {o : Operand} (h : (forLoop expr).play s = .ok (o, s')) :
    ReadsOperand E s o s' := by
  simp only [forLoop, bind_eq_bind, play_demand_ok, play_opened_ok] at h
  obtain ⟨t, ht, hk, u, hu, ho, h⟩ := h
  obtain ⟨i, s₁, hi, h⟩ := play_bind_ok.mp h
  simp only [play_demand_ok] at h
  obtain ⟨v, hv, hin, h⟩ := h
  obtain ⟨q, s₂, hq, h⟩ := play_bind_ok.mp h
  simp only [play_demand_ok, play_closed_ok] at h
  obtain ⟨w, hw, hc, h⟩ := h
  obtain ⟨e, s₃, he, h⟩ := play_bind_ok.mp h
  cases h
  exact .forLoop ht hk hu ho (readsName_of_play hi) hv hin (hE _ _ _ _ hq) hw hc
    (readsBehind_of_play_body hE he)

theorem readsOperand_of_play_whileLoop {o : Operand} (h : (whileLoop expr).play s = .ok (o, s')) :
    ReadsOperand E s o s' := by
  simp only [whileLoop, bind_eq_bind, play_demand_ok] at h
  obtain ⟨t, ht, hk, h⟩ := h
  obtain ⟨c, s₁, hc, h⟩ := play_bind_ok.mp h
  obtain ⟨e, s₂, he, h⟩ := play_bind_ok.mp h
  cases h
  exact .whileLoop ht hk (readsParens_of_play hE hc) (readsBehind_of_play_body hE he)

theorem readsOperand_of_play_repeatLoop {o : Operand}
    (h : (repeatLoop expr).play s = .ok (o, s')) : ReadsOperand E s o s' := by
  simp only [repeatLoop, bind_eq_bind, play_demand_ok] at h
  obtain ⟨t, ht, hk, h⟩ := h
  obtain ⟨e, s₁, he, h⟩ := play_bind_ok.mp h
  cases h
  exact .repeatLoop ht hk (readsBehind_of_play_body hE he)

theorem readsOperand_of_play {o : Operand} (h : (operand expr bound).play s = .ok (o, s')) :
    ReadsOperand E s o s' := by
  rw [operand, bind_eq_bind, play_look_ok] at h
  obtain ⟨t, ht, h⟩ := h
  split at h
  · rename_i c hc
    rw [bind_eq_bind, play_drop_bind_ok] at h
    obtain ⟨_, h⟩ := h
    cases h
    exact .constant ht hc
  · split at h
    case h_5 =>
      obtain ⟨e, s₁, he, h⟩ := play_bind_ok.mp h
      cases h
      exact .paren (readsParens_of_play hE he)
    case h_6 => exact readsOperand_of_play_block hE h
    case h_7 => exact readsOperand_of_play_function hE h
    case h_8 => exact readsOperand_of_play_ifForm hE h
    case h_9 => exact readsOperand_of_play_forLoop hE h
    case h_10 => exact readsOperand_of_play_whileLoop hE h
    case h_11 => exact readsOperand_of_play_repeatLoop hE h
    case h_12 => exact absurd h play_reject_ne_ok
    all_goals
      rename_i hk
      rw [bind_eq_bind, play_drop_bind_ok] at h
      obtain ⟨_, h⟩ := h
      cases h
      exact .identifier ht (by simp [hk])

theorem readsTerm_of_play {x : Term} (h : (term expr bound).play s = .ok (x, s')) :
    ReadsTerm E s x s' := by
  rw [term] at h
  obtain ⟨o, s₁, ho, h⟩ := play_bind_ok.mp h
  obtain ⟨gs, s₂, hgs, h⟩ := play_bind_ok.mp h
  cases h
  exact .mk (readsOperand_of_play hE ho) (readsGroups_of_play hE hgs)

/-! ## Operators -/

theorem readsLeading_of_play {t : Token} {e : Expression}
    (h : (leading expr bound t).play s = .ok (e, s')) : ReadsLeading E t s e s' := by
  rw [leading] at h
  split at h
  · rename_i op hop
    simp only [bind_eq_bind, play_drop_bind_ok, play_dropLines_ok] at h
    obtain ⟨_, ⟨u, hu⟩, h⟩ := h
    obtain ⟨e', s₁, he, h⟩ := play_bind_ok.mp h
    cases h
    exact .unary hop (.mk hu (hE _ _ _ _ he))
  · rename_i hop
    split at h
    · rename_i hk
      simp only [bind_eq_bind, play_drop_bind_ok, play_dropLines_ok] at h
      obtain ⟨_, ⟨u, hu⟩, h⟩ := h
      obtain ⟨e', s₁, he, h⟩ := play_bind_ok.mp h
      cases h
      exact .help hk (.mk hu (hE _ _ _ _ he))
    · rename_i hk
      obtain ⟨x, s₁, hx, h⟩ := play_bind_ok.mp h
      cases h
      exact .term hop hk (readsTerm_of_play hE hx)

theorem readsRight_of_play {op : TokenKind} {power : Power} {e : Expression}
    (h : (rightOperand expr bound op power).play s = .ok (e, s')) :
    ReadsRight E op power s e s' := by
  rw [rightOperand] at h
  split at h
  · rename_i hop
    rw [bind_eq_bind, play_look_ok] at h
    obtain ⟨t, ht, h⟩ := h
    obtain ⟨o, s₁, ho, h⟩ := play_bind_ok.mp h
    cases h
    exact .bare hop ht (readsOperand_of_play hE ho)
  · rename_i hop
    exact .full hop (hE _ _ _ _ h)

theorem readsOperations_of_play {m n : Nat} {loc : Location} {lhs e : Expression}
    (h : (operations expr bound m loc n lhs).play s = .ok (e, s')) :
    ReadsOperations E m loc lhs s e s' := by
  induction n generalizing s lhs with
  | zero => exact absurd h play_outOfBound_ne_ok
  | succ n ih =>
      rw [operations, bind_eq_bind, play_look_ok] at h
      obtain ⟨t, ht, h⟩ := h
      split at h
      · rename_i hb
        obtain ⟨gs, s₁, hgs, h⟩ := play_bind_ok.mp h
        exact .groups ht hb (readsGroups_of_play hE hgs) (ih h)
      · rename_i hb
        have hb : Brackets.ofKind? t.kind = none := by simpa using hb
        split at h
        · rename_i hp
          cases h
          exact .stop ht hb (by simp [hp])
        · rename_i p hp
          split at h
          · rename_i hm
            cases h
            exact .stop ht hb (by simpa [hp] using hm)
          · rename_i hm
            simp only [bind_eq_bind, play_drop_bind_ok, play_dropLines_ok] at h
            obtain ⟨_, ⟨u, hu⟩, h⟩ := h
            obtain ⟨rhs, s₁, hr, h⟩ := play_bind_ok.mp h
            split at h
            · exact absurd h play_reject_ne_ok
            · rename_i e₁ hj
              exact .operator ht hb hp (Nat.not_lt.mp hm) hu (readsRight_of_play hE hr) hj (ih h)

theorem readsLevel_of_play {m : Nat} {e : Expression}
    (h : (level expr bound m).play s = .ok (e, s')) : ReadsLevel E m s e s' := by
  rw [level, bind_eq_bind, play_look_ok] at h
  obtain ⟨t, ht, h⟩ := h
  obtain ⟨lhs, s₁, hl, h⟩ := play_bind_ok.mp h
  exact .mk ht (readsLeading_of_play hE hl) (readsOperations_of_play hE h)

end Sound

theorem readsExpression_of_play {bound levels m : Nat} {s s' : Tape} {e : Expression}
    (h : (expression bound levels m).play s = .ok (e, s')) :
    ReadsExpression levels m s e s' := by
  induction levels generalizing m s e s' with
  | zero => exact absurd h play_tooDeep_ne_ok
  | succ levels ih =>
      have hE : ∀ m s e s', (expression bound levels m).play s = .ok (e, s') →
          ReadsExpression levels m s e s' := fun _ _ _ _ => ih
      exact readsLevel_of_play hE h

/-- What a parse reads off a feed is derived from its tape. -/
theorem readsProgram_of_parseFeed {s : Feed} {p : Program} (h : parseFeed s = .ok p) :
    ∃ s', ReadsStatements (ReadsExpression maxNesting) .eof s.tape p.statements s' := by
  rw [parseFeed] at h
  split at h
  · cases h
  · rename_i q after hrun
    cases h
    obtain ⟨es, s₁, hes, hq⟩ := play_bind_ok.mp (play_of_run hrun)
    cases hq
    exact ⟨_, readsStatements_of_play (E := ReadsExpression maxNesting)
      (fun _ _ _ _ => readsExpression_of_play) hes⟩

/-- **The statements of an accepted source are derived from its tokens.** -/
theorem readsProgram_of_parse {bytes : List UInt8} {p : Program} (h : parse bytes = .ok p) :
    ∃ text s', decodeSource bytes = .ok text ∧ parseText text = .ok p ∧
      ReadsStatements (ReadsExpression maxNesting) .eof (Feed.ofText text).tape p.statements
        s' := by
  rw [parse] at h
  split at h
  · cases h
  · rename_i text htext
    obtain ⟨s', hs⟩ := readsProgram_of_parseFeed h
    exact ⟨text, s', htext, h, hs⟩

end RSource.Grammar
