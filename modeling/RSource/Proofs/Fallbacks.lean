import RSource.Proofs.NormalForm
import RSource.Proofs.PartingExpression
import RSource.Proofs.Slicing

/-!
# Fallbacks that nothing reaches

Some branches of the grammar are for cases that its own tests have excluded before.

* `Tape.spelled_of_ahead` — a token that a parse sees is spelled as its kind asks.
* `Identifier.ofToken_quoted` — so a quoted name stands between backticks, and loses both.
* `Grammar.front_of_statements` — statements end in front of the token that closes them.
* `Grammar.else_of_clause` — an `else` that has been found behind line feeds is there.
* `Grammar.operations_of_right` — an operator joins its operands.
* `Grammar.FallbacksIdle` — none of the fallbacks is reached from any feed.
* `cursors_safe_and_fallbacks_idle` — **tokens are read at any cursor without a slice that cannot be
  cut, and no fallback of a parse is reached**.
-/

namespace RSource

open Parse Grammar

namespace Parse

variable {α : Type} {p : Parse α} {s s' : Feed} {a : α}

theorem run_of_play {x : Tape} (h : p.play s.tape = .ok (a, x)) : ∃ s', p.run s = .ok (a, s') := by
  rw [play_tape] at h
  cases hrun : p.run s with
  | error e =>
      rw [hrun] at h
      cases h
  | ok r =>
      rw [hrun] at h
      cases h
      exact ⟨r.2, rfl⟩

/-- A token that has been looked at can be taken. -/
theorem run_demand {t : Token} {kind : TokenKind} (ht : s.front = .ok t) (hk : t.kind = kind) :
    ∃ s', (demand kind).run s = .ok (t, s') := by
  rw [Feed.front_tape] at ht
  have hplay : (demand kind).play s.tape = .ok (t, s.tape.past) := by
    rw [← bind_done (demand kind), play_demand_ok]
    exact ⟨t, ht, hk, rfl⟩
  exact run_of_play hplay

end Parse

/-! ## Quoted names -/

/-- A token that a parse sees is spelled as its kind asks. -/
theorem Tape.spelled_of_ahead {s : Tape} {n : Nat} {t : Token} (ht : s.ahead n = .ok t)
    (hk : t.kind.isLayout = false) : t.IsSpelled := by
  induction n generalizing s with
  | zero => exact spelled_of_front ht hk
  | succ n ih =>
      rw [ahead] at ht
      split at ht
      · cases ht
      · split at ht
        · rename_i heof
          cases ht
          rw [heof] at hk
          cases hk
        · exact ih ht

/-- A quoted name stands between backticks, and loses both. -/
theorem Identifier.ofToken_quoted {t : Token} (h : t.IsSpelled) (hk : t.kind = .quotedIdent) :
    ∃ inner, t.lexeme.toList = '\x60' :: (inner ++ ['\x60']) ∧
      betweenBackticks? t.lexeme.toList = some inner ∧
      ofToken t = ⟨t.loc, String.ofList inner, true⟩ := by
  obtain ⟨inner, hinner⟩ := (hk ▸ h.spells).quoted
  have hbetween : betweenBackticks? t.lexeme.toList = some inner := by
    rw [hinner]
    simp [betweenBackticks?]
  exact ⟨inner, hinner, hbetween, by rw [ofToken, if_pos hk, hbetween]; rfl⟩

namespace Grammar

variable {expr : ExprParse} {bound n : Nat} {s s' : Tape}

/-! ## Blocks -/

/-- Statements end in front of the token that closes them. -/
theorem front_of_statements {close : TokenKind} {es : List Expression}
    (h : (statements expr close n).play s = .ok (es, s')) :
    ∃ t, s'.front = .ok t ∧ t.kind = close := by
  induction n generalizing s es with
  | zero => exact (play_outOfBound_ne_ok h).elim
  | succ n ih =>
      rw [statements, bind_eq_bind, play_look_ok] at h
      obtain ⟨t, ht, h⟩ := h
      split at h
      · rw [bind_eq_bind, play_drop_bind_ok] at h
        exact ih h.2
      · split at h
        · rename_i hk
          cases h
          exact ⟨t, ht, hk⟩
        · split at h
          · exact (play_reject_ne_ok h).elim
          · obtain ⟨e, s₁, -, h⟩ := play_bind_ok.mp h
            rw [bind_eq_bind, play_look_ok] at h
            obtain ⟨u, -, h⟩ := h
            split at h
            · obtain ⟨rest, s₂, hrest, h⟩ := play_bind_ok.mp h
              cases h
              exact ih hrest
            · exact (play_reject_ne_ok h).elim

/-! ## Branches -/

/-- An `else` that has been found behind line feeds is there. -/
theorem else_of_clause {t : Token} (h : s.clause = .ok t) (hk : t.kind = .elseWord) :
    (dropLines.bind fun _ => demand .elseWord).play s = .ok (t, s.afterLines.past) := by
  obtain ⟨hbeyond, hfront⟩ : (∃ u, s.beyond = .ok u) ∧ s.afterLines.front = .ok t := by
    rw [Tape.clause] at h
    split at h
    · exact ⟨⟨t, h⟩, front_behind_lines h⟩
    · have hfront := Tape.front_afterLines h (by simp [hk])
      exact ⟨Tape.beyond_of_front hfront, hfront⟩
  rw [play_dropLines_ok, ← bind_done (demand .elseWord), play_demand_ok]
  exact ⟨hbeyond, t, hfront, hk, rfl⟩

/-! ## Operators -/

/-- Behind its right operand an operator joins both, and reading goes on with what they are. -/
theorem operations_of_right {op : Token} {power : Power} {m : Nat} {s s₁ : Feed} {rhs : Expression}
    (loc : Location) (lhs : Expression) (hop : s.front = .ok op)
    (hpower : Power.ofKind? op.kind = some power) (hm : m ≤ power.left)
    (hright : (drop.bind fun _ => dropLines.bind fun _ =>
      rightOperand expr bound op.kind power).run s = .ok (rhs, s₁)) :
    ∃ e, joined? loc lhs op rhs = some e ∧
      (operations expr bound m loc (n + 1) lhs).run s =
        (operations expr bound m loc n e).run s₁ := by
  obtain ⟨e, he⟩ := Option.isSome_iff_exists.mp (isSome_joined hpower loc lhs rhs)
  refine ⟨e, he, ?_⟩
  have hlook : look.run s = .ok (op, s) := by
    rw [look, run, show s.ahead 0 = .ok op from hop]
    rfl
  have hbrackets : (Brackets.ofKind? op.kind).isSome = false := by
    generalize op.kind = k at hpower
    cases k <;> first | rfl | cases hpower
  have hparts (K : Expression → Parse Expression) :
      (drop.bind fun _ => dropLines.bind fun _ =>
        (rightOperand expr bound op.kind power).bind K) =
      (drop.bind fun _ => dropLines.bind fun _ =>
        rightOperand expr bound op.kind power).bind K := by
    simp only [bind_bind]
  rw [operations, bind_eq_bind, run_bind, hlook]
  simp only [hbrackets, Bool.false_eq_true, if_false, hpower, if_neg (Nat.not_lt.mpr hm),
    bind_eq_bind]
  rw [hparts, run_bind, hright]
  simp only [he]

/-- Whatever an expression is read by and wherever a parse stands, it reaches none of its fallbacks:
behind a right operand both are joined, a quoted name loses its backticks, parameters stand where
the first of them does, and what closes a block or starts an `else` branch is there to be taken. -/
structure FallbacksIdle (expr : ExprParse) (bound : Nat) : Prop where
  joined : ∀ m loc n lhs s op power rhs s₁, s.front = .ok op →
    Power.ofKind? op.kind = some power → m ≤ power.left →
    (drop.bind fun _ => dropLines.bind fun _ =>
      rightOperand expr bound op.kind power).run s = .ok (rhs, s₁) →
    ∃ e, joined? loc lhs op rhs = some e ∧
      (operations expr bound m loc (n + 1) lhs).run s =
        (operations expr bound m loc n e).run s₁
  quoted : ∀ (s : Feed) n t, s.ahead n = .ok t → t.kind = .quotedIdent → ∃ inner,
    t.lexeme.toList = '\x60' :: (inner ++ ['\x60']) ∧
      betweenBackticks? t.lexeme.toList = some inner ∧
      Identifier.ofToken t = ⟨t.loc, String.ofList inner, true⟩
  formals : ∀ s fs s', (Grammar.formals expr bound).run s = .ok (fs, s') →
    (fs = [] ∧ ∃ t, s.front = .ok t ∧ t.kind = .rparen) ∨
      ∃ f gs, fs = f :: gs ∧ ∀ nodes, Node.formals fs nodes = [.mk .formals f.name.loc nodes]
  block : ∀ s es s', (statements expr .rbrace bound).run s = .ok (es, s') →
    ∃ t s'', (demand .rbrace).run s' = .ok (t, s'')
  branch : ∀ s s', elseFollows.run s = .ok (true, s') →
    ∃ t s'', (dropLines.bind fun _ => demand .elseWord).run s' = .ok (t, s'')

theorem fallbacksIdle (expr : ExprParse) (bound : Nat) : FallbacksIdle expr bound where
  joined _ loc _ lhs _ _ _ _ _ hop hpower hm hright :=
    operations_of_right loc lhs hop hpower hm hright
  quoted s n t ht hk := by
    rw [Feed.ahead_tape] at ht
    exact Identifier.ofToken_quoted (Tape.spelled_of_ahead ht (by rw [hk]; rfl)) hk
  formals s fs s' h := by
    have hfilled := (listsFilled expr bound).formals s fs s' h
    obtain ⟨t, ht, ⟨hk, hfs⟩ | ⟨f, rest, -, hfs, hnodes⟩⟩ := hfilled
    · exact .inl ⟨hfs, t, ht, hk⟩
    · exact .inr ⟨f, rest, hfs, hnodes⟩
  block s es s' h := by
    obtain ⟨t, ht, hk⟩ := front_of_statements (play_of_run h)
    exact ⟨t, run_demand (s'.front_tape.trans ht) hk⟩
  branch s s' h := by
    have hplay := play_of_run h
    rw [← bind_done elseFollows, play_elseFollows_ok] at hplay
    obtain ⟨t, ht, hplay⟩ := hplay
    have hk : (t.kind == .elseWord) = true := congrArg Prod.fst (Except.ok.inj hplay)
    have htape : s.tape = s'.tape := congrArg Prod.snd (Except.ok.inj hplay)
    rw [htape] at ht
    exact ⟨t, run_of_play (else_of_clause ht (by simpa using hk))⟩

end Grammar

/-- **From any place between characters on, a token or a fault is found**, and no slice starts or
ends out of range or inside a character. Behind a token the cursor stands at such a place again, not
before the first, and behind it unless the text has ended. No fallback of a parse is reached. -/
theorem cursors_safe_and_fallbacks_idle :
    (∀ text k, IsBoundary text k.offset → ∃ x, Slices text k x) ∧
    ∀ expr bound, Grammar.FallbacksIdle expr bound :=
  ⟨fun _ _ => exists_slices, Grammar.fallbacksIdle⟩

/-- In `é b` a cursor may stand behind the two bytes of its first character but not between them.
From there the blank is passed over and the name behind it is found. -/
theorem cursors_safe_and_fallbacks_idle_behind_accent :
    ¬ IsBoundary ['é', ' ', 'b'] 1 ∧ IsBoundary ['é', ' ', 'b'] 2 ∧
      Slices ['é', ' ', 'b'] ⟨2, ⟨1, 2⟩⟩ (.ok (⟨.ident, "b", ⟨1, 3⟩, 3⟩, ⟨4, ⟨1, 4⟩⟩)) := by
  have hboundary : IsBoundary ['é', ' ', 'b'] 2 := ⟨['é'], [' ', 'b'], rfl, by decide⟩
  refine ⟨?_, hboundary, ?_⟩
  · rintro ⟨before, rest, htext, hlength⟩
    have hinside : fromOffset? 1 ['é', ' ', 'b'] = none := by decide
    have hbetween : fromOffset? 1 ['é', ' ', 'b'] = some rest :=
      fromOffset?_eq_some_iff.mpr ⟨before, htext, hlength⟩
    cases hinside.symm.trans hbetween
  · obtain ⟨x, hx⟩ := cursors_safe_and_fallbacks_idle.1 _ ⟨2, ⟨1, 2⟩⟩ hboundary
    have hread : tokenAt? ['é', ' ', 'b'] ⟨2, ⟨1, 2⟩⟩ =
        some (.ok (⟨.ident, "b", ⟨1, 3⟩, 3⟩, ⟨4, ⟨1, 4⟩⟩)) := by decide +kernel
    cases hread.symm.trans hx.read
    exact hx

end RSource
