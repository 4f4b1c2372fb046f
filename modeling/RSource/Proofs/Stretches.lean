import RSource.Proofs.Numbering
import RSource.Proofs.ReflowBracketed
import RSource.Proofs.Splitting
import RSource.Proofs.Written

/-!
# The line feeds between two tapes

* `SplitAt` — from a spot on, the statements of a block begin behind so many tokens.
* `Stretch` — **what stands between two tapes**: each line feed may stand there, and the statements
  of the blocks are split.
* `Stretch.stop`, `Stretch.take`, `Stretch.lines`, `Stretch.otherwise`, `Stretch.seq` — how
  stretches are put together.
* `Stretches` — what is asked of the relation of an expression.
* `ReadsArgument.stretch`, `ReadsGroups.stretch`, `ReadsFormals.stretch` and the like — one for each
  relation of a list in brackets.
-/

namespace RSource

open Item (width)

/-- Where line feeds are visible, a visible token is the next one. -/
theorem Tape.tokens_of_lined {s : Tape} {t : Token} (hs : s.isFree = false) (ht : s.front = .ok t)
    (he : t.kind ≠ .eof) : s.tokens = t :: s.past.tokens := by
  rw [front_of_lined hs] at ht
  cases htok : s.tokens with
  | nil =>
      rw [head_nil htok] at ht
      exact absurd (s.ending_eof t ht) he
  | cons u us =>
      rw [head_cons htok] at ht
      cases ht
      rw [past_of_lined hs, tail_tokens, htok]
      rfl

/-- What is dropped in front of a tape are line feeds. -/
theorem Tape.newline_of_leading {s : Tape} :
    ∀ l ∈ s.tokens.takeWhile (·.kind == .newline), l.kind = .newline := by
  intro l hmem
  simpa using List.mem_takeWhile_imp hmem

/-- Statements that begin behind `n` tokens are split, in braces or outside all brackets. -/
def SplitAt (a : Spot) (s : Tape) (n : Nat) (es : List Expression) : Prop :=
  ∃ before after, s.tokens = before ++ after ∧ (a.run before).number = n ∧
    (a.run before).scope.isFree = false ∧ Splits (a.run before).scope es after

/-- From one tape to another: the brackets are those of the scope, the tokens between lead from the
spot to the number and the scope, each line feed among them may stand in a statement that less than
`d` brackets are around, and the statements of each block are split. -/
structure Stretch (d : Nat) (os : List (Nat × Operand)) (a : Spot) (s : Tape) (n : Nat) (c : Scope)
    (s' : Tape) : Prop where
  layouts : s'.layouts = c.layouts
  reads : ∃ ts, s.tokens = ts ++ s'.tokens ∧ a.Flows d ts ∧ (a.run ts).number = n ∧
    (a.run ts).scope = c
  blocks : ∀ m loc es close, (m, Operand.block loc es close) ∈ os → SplitAt a s (m + 1) es

namespace Stretch

variable {d n m : Nat} {os xs ys : List (Nat × Operand)} {a : Spot} {c c' : Scope}
  {s r s₁ s' : Tape} {t : Token} {k : TokenKind}

theorem stop (hl : s.layouts = a.scope.layouts) : Stretch d [] a s a.number a.scope s :=
  ⟨hl, ⟨[], rfl, trivial, rfl, rfl⟩, by simp⟩

theorem cast (h : Stretch d os a s n c s') (hn : n = m) : Stretch d os a s m c s' := hn ▸ h

/-- What stretches from behind some tokens stretches from before them. -/
theorem behind (ts : List Token) (hs : s.tokens = ts ++ r.tokens) (hf : a.Flows d ts)
    (h : Stretch d os (a.run ts) r n c s') : Stretch d os a s n c s' := by
  obtain ⟨us, hus, hflow, hn, hc⟩ := h.reads
  refine ⟨h.layouts, ⟨ts ++ us, ?_, hf.append hflow, ?_, ?_⟩, ?_⟩
  · rw [hs, hus, List.append_assoc]
  · rwa [Spot.run_append]
  · rwa [Spot.run_append]
  · intro m loc es close hmem
    obtain ⟨before, after, htok, hsplit⟩ := h.blocks m loc es close hmem
    refine ⟨ts ++ before, after, by rw [hs, htok, List.append_assoc], ?_⟩
    rwa [Spot.run_append]

/-- One stretch behind another. -/
theorem seq (h : Stretch d xs a s n c s₁)
    (h' : ∀ j, s₁.layouts = c.layouts → Stretch d ys ⟨n, j, c⟩ s₁ m c' s') :
    Stretch d (xs ++ ys) a s m c' s' := by
  obtain ⟨ts, hs, hf, hn, hc⟩ := h.reads
  have hrun : a.run ts = ⟨n, (a.run ts).joined, c⟩ := by rw [← hn, ← hc]
  have hrest := h' (a.run ts).joined h.layouts
  rw [← hrun] at hrest
  have hall := behind ts hs hf hrest
  refine ⟨hall.layouts, hall.reads, ?_⟩
  intro m loc es close hmem
  rcases List.mem_append.mp hmem with hx | hy
  · exact h.blocks m loc es close hx
  · exact hall.blocks m loc es close hy

/-- One token with the line feeds in front of it. -/
theorem word {lines : List Token} (hs : s.tokens = lines ++ t :: r.tokens)
    (hlines : ∀ l ∈ lines, l.kind = .newline) (hk : t.kind = k) (hw : k ≠ .newline)
    (hc : ∀ ls, (∀ l ∈ ls, l.kind = .newline) → a.Crosses d (ls ++ [t]))
    (h : Stretch d os (a.step k) r n c s') : Stretch d os a s n c s' := by
  subst hk
  have hflow : a.Flows d [t] := ⟨fun hk => absurd hk hw, trivial⟩
  refine behind (r := r) (lines ++ [t]) (by rw [hs]; simp) (hflow.lines hlines hc) ?_
  rw [Spot.run_append, Spot.run_lines a hlines]
  exact h

/-- One visible token. -/
theorem take (hl : s.layouts = a.scope.layouts) (ht : s.front = .ok t) (hk : t.kind = k)
    (hw : k ≠ .newline) (he : k ≠ .eof) (hr : r.tokens = s.past.tokens)
    (h : Stretch d os (a.step k) r n c s') : Stretch d os a s n c s' := by
  subst hk
  cases hfree : s.isFree with
  | false =>
      refine behind [t] ?_ ⟨fun hk => absurd hk hw, trivial⟩ h
      rw [Tape.tokens_of_lined hfree ht he, hr]
      rfl
  | true =>
      obtain ⟨lines, hs, hlines⟩ := Tape.tokens_of_front ht he
      rw [Tape.isFree, hl] at hfree
      rw [← hr] at hs
      exact word hs hlines rfl hw (fun _ _ => Or.inr (Or.inl hfree)) h

/-- The line feeds behind a token that goes on in the next line. -/
theorem lines (hj : a.joined = true) (h : Stretch d os a s.afterLines n c s') :
    Stretch d os a s n c s' := by
  refine behind (r := s.afterLines) _ List.takeWhile_append_dropWhile.symm ?_ ?_
  · exact .of_lines Tape.newline_of_leading fun _ _ => Or.inl hj
  · rwa [Spot.run_lines a Tape.newline_of_leading]

/-- An `else` with the line feeds in front of it, which some brackets are around. -/
theorem otherwise {x y : Token} (hd : d ≤ a.scope.opened.length + 1)
    (hl : s.layouts = a.scope.layouts) (hx : s.clause = .ok x) (hj : x.kind = .elseWord)
    (hy : s.afterLines.front = .ok y) (hi : y.kind = .elseWord)
    (h : Stretch d os (a.step .elseWord) s.afterLines.past n c s') :
    Stretch d os a s n c s' := by
  -- Outside all brackets the `else` is the next token, without line feeds.
  by_cases ho : a.scope.opened = []
  · have hnil : s.layouts = [] := by rw [hl, Scope.layouts, ho]; rfl
    have hfree : s.isFree = false := by rw [Tape.isFree, hnil]; rfl
    have hin : s.inBrackets = false := by rw [Tape.inBrackets, hnil]; rfl
    have hfront : s.front = .ok x := by simpa [Tape.clause, hin] using hx
    have hface : s.Faces x := ⟨Tape.front_of_lined hfree ▸ hfront, by simp [hj]⟩
    rw [hface.afterLines] at h
    exact take hl hfront hj (by simp) (by simp) rfl h
  · have hlen := List.length_pos_iff.mpr ho
    obtain ⟨ls, hls, hlines⟩ := Tape.tokens_of_front hy (by simp [hi])
    have hall : ∀ l ∈ s.tokens.takeWhile (·.kind == .newline) ++ ls, l.kind = .newline := by
      intro l hmem
      rcases List.mem_append.mp hmem with hmem | hmem
      · exact Tape.newline_of_leading l hmem
      · exact hlines l hmem
    have hcross : ∀ ms, (∀ m ∈ ms, m.kind = .newline) → a.Crosses d (ms ++ [y]) := by
      intro ms hms
      by_cases hle : d ≤ a.scope.opened.length
      · exact Or.inr (Or.inr (Or.inl hle))
      · exact Or.inr (Or.inr (Or.inr ⟨by omega, ms, y, [], rfl, hms, hi⟩))
    have htok : s.tokens = (s.tokens.takeWhile (·.kind == .newline) ++ ls) ++
        y :: s.afterLines.past.tokens := by
      rw [List.append_assoc, ← hls]
      exact List.takeWhile_append_dropWhile.symm
    exact word htok hall hi (by decide) hcross h

/-- An operand as a whole. If it is a block, its statements are split. -/
theorem record {o : Operand} {i : Nat} (h : Stretch d os a s n c s')
    (hb : ∀ loc es close, o = .block loc es close → SplitAt a s (i + 1) es) :
    Stretch d ((i, o) :: os) a s n c s' := by
  refine ⟨h.layouts, h.reads, ?_⟩
  intro m loc es close hmem
  rcases List.mem_cons.mp hmem with heq | hmem
  · cases heq
    exact hb loc es close rfl
  · exact h.blocks m loc es close hmem

end Stretch

namespace Grammar

/-- What is asked of the relation of an expression: it stretches between its tapes as a part of any
statement around it. The brackets around the expression are `o`; around the statement there are all
of them or less, and `d` is one more. -/
structure Stretches (E : ExprReads) : Prop where
  stretch : ∀ {m d : Nat} {o : List Bracket} {s s' : Tape} {e : Expression}, E m s e s' →
    d ≤ o.length + 1 → s.layouts = o.map Bracket.layout → ∀ (n : Nat) (j : Bool),
      Stretch d (e.operands n) ⟨n, j, ⟨o, false⟩⟩ s (n + width e.items) ⟨o, false⟩ s'

variable {E : ExprReads} {d n m : Nat} {j : Bool} {o : List Bracket} {os : List (Nat × Operand)}
  {c : Scope} {s s₁ s' : Tape} {t : Token}

theorem layouts_enter {l : Layout} (b : Bracket) (hb : b.layout = l)
    (hl : s.layouts = o.map Bracket.layout) :
    (s.past.enter l).layouts = (b :: o).map Bracket.layout := by
  rw [Tape.enter_layouts, Tape.past_layouts, hl, List.map_cons, hb]

theorem layouts_leave {b : Bracket} (hl : s.layouts = (b :: o).map Bracket.layout) :
    s.past.leave.layouts = o.map Bracket.layout := by
  rw [Tape.leave_layouts, Tape.past_layouts, hl]
  rfl

/-! ## Tokens that leave the brackets alone -/

theorem continues_power {p : Power} {k : TokenKind} (h : Power.ofKind? k = some p) (c : Scope) :
    c.continues k = true := by
  simp [Scope.continues, h]

theorem continues_unary {op : UnaryOp} {k : TokenKind} (h : UnaryOp.ofKind? k = some op)
    (c : Scope) : c.continues k = true := by
  simp [Scope.continues, h]

/-- A token that is part of an expression and opens and closes nothing. -/
theorem stretch_past (hl : s.layouts = o.map Bracket.layout) (ht : s.front = .ok t)
    (hk : t.kind.isLayout = false) (hs : Scope.step ⟨o, false⟩ t.kind = ⟨o, false⟩)
    (h : s.past.layouts = o.map Bracket.layout →
      Stretch d os ⟨n + 1, Scope.continues ⟨o, false⟩ t.kind, ⟨o, false⟩⟩ s.past m c s') :
    Stretch d os ⟨n, j, ⟨o, false⟩⟩ s m c s' := by
  have hne : t.kind ≠ .newline := by rintro he; simp [he, TokenKind.isLayout] at hk
  refine .take hl ht rfl hne ?_ rfl ?_
  · rintro he
    simp [he, TokenKind.isLayout] at hk
  · rw [Spot.step_of_ne _ hne, hk, hs]
    exact h (s.past_layouts.trans hl)

/-- Such a token alone. -/
theorem stretch_token (hl : s.layouts = o.map Bracket.layout) (ht : s.front = .ok t)
    (hk : t.kind.isLayout = false) (hs : Scope.step ⟨o, false⟩ t.kind = ⟨o, false⟩) :
    Stretch d [] ⟨n, j, ⟨o, false⟩⟩ s (n + 1) ⟨o, false⟩ s.past :=
  stretch_past hl ht hk hs fun hl => .stop hl

/-! ## Lists in brackets -/

theorem ReadsName.stretch {i : Identifier} (h : ReadsName s i s')
    (hl : s.layouts = o.map Bracket.layout) (n : Nat) (j : Bool) :
    Stretch d [] ⟨n, j, ⟨o, false⟩⟩ s (n + 1) ⟨o, false⟩ s' := by
  cases h with
  | mk ht hk => exact stretch_token hl ht (isLayout_of_name hk) (step_leaf (hk.imp_right Or.inl)).1

section Bracketed

variable {close : TokenKind} (hE : Stretches E)

include hE

theorem ReadsArgument.stretch {a : Argument} (h : ReadsArgument E close s a s')
    (hd : d ≤ o.length + 1) (hl : s.layouts = o.map Bracket.layout) (n : Nat) (j : Bool) :
    Stretch d (a.operands n) ⟨n, j, ⟨o, false⟩⟩ s (n + width a.items) ⟨o, false⟩ s' := by
  cases h with
  | value ht hn he =>
      simp only [Argument.operands, Argument.items]
      exact hE.stretch he hd hl n j
  | name ht hn hu hk hv hend =>
      simp only [Argument.operands, Argument.items]
      refine stretch_past hl ht (isLayout_of_argName hn) (step_argName hn).1 fun hl => ?_
      refine (stretch_token hl hu (by rw [hk]; rfl) (by rw [hk]; rfl)).cast ?_
      simp
  | named ht hn hu hk hv hend he =>
      simp only [Argument.operands, Argument.items]
      refine stretch_past hl ht (isLayout_of_argName hn) (step_argName hn).1 fun hl => ?_
      refine stretch_past hl hu (by rw [hk]; rfl) (by rw [hk]; rfl) fun hl => ?_
      rw [ArgName.width_items]
      refine (hE.stretch he hd hl _ _).cast ?_
      simp
      omega

theorem ReadsSlot.stretch {a : Argument} (h : ReadsSlot E close s a s')
    (hd : d ≤ o.length + 1) (hl : s.layouts = o.map Bracket.layout) (n : Nat) (j : Bool) :
    Stretch d (a.operands n) ⟨n, j, ⟨o, false⟩⟩ s (n + width a.items) ⟨o, false⟩ s' := by
  cases h with
  | empty ht hk =>
      simp only [Argument.operands, Argument.items]
      exact .stop hl
  | filled ht hk ha => exact ha.stretch hE hd hl n j

theorem ReadsSlots.stretch {as : List Argument} (h : ReadsSlots E close s as s')
    (hd : d ≤ o.length + 1) (hl : s.layouts = o.map Bracket.layout) (n : Nat) (j : Bool) :
    Stretch d (argumentOperands n as) ⟨n, j, ⟨o, false⟩⟩ s (n + width (argumentItems [] as))
      ⟨o, false⟩ s' := by
  induction h generalizing n j with
  | last ha hu hc hk =>
      simp only [argumentOperands, argumentItems, List.append_nil, List.nil_append]
      exact ha.stretch hE hd hl n j
  | trailing ha hu hc hv hk =>
      simp only [argumentOperands, Argument.operands]
      refine (ha.stretch hE hd hl n j).seq fun j hl => ?_
      refine (stretch_token hl hu (by rw [hc]; rfl) (by rw [hc]; rfl)).cast ?_
      simp [argumentItems, Argument.items, Nat.add_assoc]
  | @more s s₁ s' u v a as ha hu hc hv hk hs ih =>
      rw [argumentOperands]
      refine (ha.stretch hE hd hl n j).seq fun j hl => ?_
      refine stretch_past hl hu (by rw [hc]; rfl) (by rw [hc]; rfl) fun hl => ?_
      refine (ih hl _ _).cast ?_
      cases hs <;> simp [argumentItems, Argument.items] <;> omega

theorem ReadsArguments.stretch {as : List Argument} (h : ReadsArguments E close s as s')
    (hd : d ≤ o.length + 1) (hl : s.layouts = o.map Bracket.layout) (n : Nat) (j : Bool) :
    Stretch d (argumentOperands n as) ⟨n, j, ⟨o, false⟩⟩ s (n + width (argumentItems [] as))
      ⟨o, false⟩ s' := by
  cases h with
  | none => exact .stop hl
  | some ht hk hs => exact hs.stretch hE hd hl n j

omit hE in
theorem ReadsClosing.stretch {kind : Brackets} (h : ReadsClosing kind s s')
    (hl : s.layouts = (bracketOf kind :: o).map Bracket.layout) (n : Nat) (j : Bool) :
    Stretch d [] ⟨n, j, ⟨bracketOf kind :: o, false⟩⟩ s (n + width [.close kind]) ⟨o, false⟩
      s'.leave := by
  have hpast := layouts_leave hl
  cases h with
  | single ht hk hne =>
      cases kind with
      | call => exact .take (r := s.past.leave) hl ht hk (by decide) (by decide) rfl (.stop hpast)
      | index => exact .take (r := s.past.leave) hl ht hk (by decide) (by decide) rfl (.stop hpast)
      | element => exact absurd rfl hne
  | double ht hk hu hj ho =>
      have hl' : s.past.layouts = (Bracket.half :: o).map Bracket.layout := s.past_layouts.trans hl
      refine .take hl ht hk (by decide) (by decide) rfl ?_
      exact .take (r := s.past.past.leave) hl' hu hj (by decide) (by decide) rfl
        (.stop (layouts_leave hl'))

theorem ReadsGroup.stretch {g : Group} (h : ReadsGroup E s g s') (hd : d ≤ o.length + 1)
    (hl : s.layouts = o.map Bracket.layout) (n : Nat) (j : Bool) :
    Stretch d (g.operands n) ⟨n, j, ⟨o, false⟩⟩ s (n + width (g.items [])) ⟨o, false⟩ s' := by
  cases h with
  | @mk s₁ s₂ t u kind as ht hk hu ha hc =>
      have hopen := opening_of_brackets hk
      have hin := layouts_enter (bracketOf kind) (layout_bracketOf kind) hl
      have hstep : Spot.step ⟨n, j, ⟨o, false⟩⟩ kind.opening =
          ⟨n + 1, Scope.continues ⟨o, false⟩ kind.opening, ⟨bracketOf kind :: o, false⟩⟩ := by
        cases kind <;> rfl
      rw [Group.operands, ← List.append_nil (argumentOperands (n + 1) as)]
      refine .take (r := s.past.enter .free) hl ht hopen ?_ ?_ rfl ?_
      · cases kind <;> decide
      · cases kind <;> decide
      · rw [hstep]
        refine (ha.stretch hE (Nat.le_succ_of_le hd) hin _ _).seq fun j hl => ?_
        refine (hc.stretch hl _ j).cast ?_
        simp [Group.items]
        omega

theorem ReadsGroups.stretch {gs : List Group} (h : ReadsGroups E s gs s')
    (hd : d ≤ o.length + 1) (hl : s.layouts = o.map Bracket.layout) (around : List Label) (n : Nat)
    (j : Bool) :
    Stretch d (groupOperands n gs) ⟨n, j, ⟨o, false⟩⟩ s (n + width (groupItems around gs))
      ⟨o, false⟩ s' := by
  induction h generalizing n j around with
  | stop => exact .stop hl
  | @more s s₁ s' g gs hg hs ih =>
      rw [groupOperands]
      refine (hg.stretch hE hd hl n j).seq fun j hl => ?_
      refine (ih hl [] _ j).cast ?_
      rw [groupItems, Item.width_append, Group.width_items around g, Nat.add_assoc]

theorem ReadsFormal.stretch {f : Formal} (h : ReadsFormal E s f s') (hd : d ≤ o.length + 1)
    (hl : s.layouts = o.map Bracket.layout) (n : Nat) (j : Bool) :
    Stretch d (f.operands n) ⟨n, j, ⟨o, false⟩⟩ s (n + width f.items) ⟨o, false⟩ s' := by
  cases h with
  | required hi =>
      simp only [Formal.operands, Formal.items]
      exact hi.stretch hl n j
  | defaulted hi ht hk he =>
      simp only [Formal.operands, Formal.items]
      rw [← List.nil_append (Expression.operands _ _)]
      refine (hi.stretch hl n j).seq fun j hl => ?_
      refine stretch_past hl ht (by rw [hk]; rfl) (by rw [hk]; rfl) fun hl => ?_
      refine (hE.stretch he hd hl _ _).cast ?_
      simp
      omega

theorem ReadsSomeFormals.stretch {fs : List Formal} (h : ReadsSomeFormals E s fs s')
    (hd : d ≤ o.length + 1) (hl : s.layouts = o.map Bracket.layout) (n : Nat) (j : Bool) :
    Stretch d (formalOperands n fs) ⟨n, j, ⟨o, false⟩⟩ s (n + width (formalItems [] fs))
      ⟨o, false⟩ s' := by
  induction h generalizing n j with
  | last hf ht hk =>
      simp only [formalOperands, formalItems, List.append_nil, List.nil_append]
      exact hf.stretch hE hd hl n j
  | @more s s₁ s' t f fs hf ht hk hs ih =>
      rw [formalOperands]
      refine (hf.stretch hE hd hl n j).seq fun j hl => ?_
      refine stretch_past hl ht (by rw [hk]; rfl) (by rw [hk]; rfl) fun hl => ?_
      refine (ih hl _ _).cast ?_
      cases hs <;> simp [formalItems] <;> omega

theorem ReadsFormals.stretch {fs : List Formal} (h : ReadsFormals E s fs s')
    (hd : d ≤ o.length + 1) (hl : s.layouts = o.map Bracket.layout) (n : Nat) (j : Bool) :
    Stretch d (formalOperands n fs) ⟨n, j, ⟨o, false⟩⟩ s (n + width (formalItems [] fs))
      ⟨o, false⟩ s' := by
  cases h with
  | none => exact .stop hl
  | some ht hk hs => exact hs.stretch hE hd hl n j

end Bracketed

end Grammar

end RSource
