import RSource.Proofs.Composing
import RSource.Proofs.Partition
import RSource.Proofs.Refusal

/-!
# Progress

Whatever a parse reads it takes from the tokens left, so all loops come to an end.

* `Feed.unread`, `Consumes` — the tokens left to a feed, and that some have been taken.
* `Parse.Shortens` — a parse that succeeds with such a result leaves fewer tokens.
* `Grammar.shortens_operand`, `Grammar.shortens_argument`, `Grammar.shortens_group`,
  `Grammar.shortens_expression` — so does what a loop reads in a turn.
* `Grammar.LoopTurn.shortens` — **so does each turn that is not the last**.
* `Parse.Ample` — with fewer tokens left than a bound says a parse does not run out of it.
* `Grammar.composes_ample` — no parse of the grammar runs out of its bound, if no expression does.
* `Grammar.ample_expression` — **no expression runs out of its bound**.
* `parser_progresses` — **parses read on, and so end**, whatever the input is.
-/

namespace RSource

/-- The tokens left to a feed, comments apart, up to the end of the input or a fault. -/
def Feed.unread (s : Feed) : List Token := s.reader.remaining.1

/-- Some tokens have been taken, and none of them is the end of the input. -/
def Consumes (s s' : Feed) : Prop :=
  ∃ taken ≠ [], s.unread = taken ++ s'.unread ∧ ∀ t ∈ taken, t.kind ≠ .eof

theorem Consumes.length_lt {s s' : Feed} (h : Consumes s s') :
    s'.unread.length < s.unread.length := by
  obtain ⟨taken, hne, htokens, -⟩ := h
  have hpos := List.length_pos_iff.mpr hne
  rw [htokens, List.length_append]
  omega

/-! ## Fewer tokens -/

theorem Tape.length_past_lt {s : Tape} {t : Token} (ht : s.front = .ok t) (hk : t.kind ≠ .eof) :
    s.past.tokens.length < s.tokens.length := by
  obtain ⟨lines, hlines, -⟩ := tokens_of_front ht hk
  rw [hlines, List.length_append, List.length_cons]
  omega

namespace Parse

variable {α β : Type}

/-- If the parse succeeds on the tape with such a result, fewer tokens are left. -/
def Shortens (Q : α → Prop) (p : Parse α) (s : Tape) : Prop :=
  ∀ a s', p.play s = .ok (a, s') → Q a → s'.tokens.length < s.tokens.length

/-- If the parse succeeds on the tape, fewer tokens are left. -/
abbrev ShortensAny (p : Parse α) (s : Tape) : Prop := Shortens (fun _ => True) p s

variable {Q : α → Prop} {s : Tape}

theorem shortens_done {a : α} (h : ¬ Q a) : Shortens Q (done a) s := by
  rintro a' s' hp ha
  cases hp
  exact absurd ha h

theorem shortens_reject {expected : List Continuation} : Shortens Q (reject expected) s :=
  fun _ _ hp => absurd hp play_reject_ne_ok

theorem shortens_look {f : Token → Parse α} (h : ∀ t, s.front = .ok t → Shortens Q (f t) s) :
    Shortens Q (look.bind f) s := by
  intro a s' hp
  obtain ⟨t, ht, hp⟩ := play_look_ok.mp hp
  exact h t ht a s' hp

/-- What is taken behind a parse, or else by it, is taken by both. -/
theorem shortens_behind {p : Parse β} {f : β → Parse α}
    (h : ∀ b s₁, p.play s = .ok (b, s₁) → Shortens Q (f b) s₁) : Shortens Q (p.bind f) s := by
  intro a s' hp ha
  obtain ⟨b, s₁, hp, hf⟩ := play_bind_ok.mp hp
  exact Nat.lt_of_lt_of_le (h b s₁ hp a s' hf ha) (play_length_le hp)

theorem ShortensAny.bind {p : Parse β} {f : β → Parse α} (h : ShortensAny p s) :
    Shortens Q (p.bind f) s := by
  intro a s' hp _
  obtain ⟨b, s₁, hp, hf⟩ := play_bind_ok.mp hp
  exact Nat.lt_of_le_of_lt (play_length_le hf) (h b s₁ hp trivial)

theorem shortens_drop {t : Token} (ht : s.front = .ok t) (hk : t.kind ≠ .eof) :
    ShortensAny drop s := by
  intro a s' hp _
  obtain ⟨-, hp⟩ := play_drop_ok.mp hp
  cases hp
  exact Tape.length_past_lt ht hk

theorem shortens_demand {kind : TokenKind} (hk : kind ≠ .eof) : ShortensAny (demand kind) s := by
  rw [← bind_done (demand kind)]
  intro t s' hp _
  obtain ⟨u, hu, rfl, hdone⟩ := play_demand_ok.mp hp
  cases hdone
  exact Tape.length_past_lt hu hk

/-- What a parse takes is taken from the tokens left to the feed. -/
theorem Shortens.consumes {p : Parse α} {s s' : Feed} {a : α} (h : Shortens Q p s.tape)
    (hp : p.run s = .ok (a, s')) (ha : Q a) : Consumes s s' := by
  have hplay : p.play s.tape = .ok (a, s'.tape) := play_of_run hp
  obtain ⟨taken, htaken⟩ := play_suffix hplay
  have hlt := h a s'.tape hplay ha
  refine ⟨taken, ?_, htaken.symm, fun t ht => ?_⟩
  · rintro rfl
    rw [← htaken] at hlt
    exact Nat.lt_irrefl _ hlt
  · exact (s.tape.spelled t (by rw [← htaken]; exact List.mem_append_left _ ht)).ne_eof

end Parse

/-- The turn is not the last. -/
def Turn.GoesOn {σ ρ : Type} : Turn σ ρ → Prop
  | again _ => True
  | exit _ => False

namespace Grammar

open Parse

variable {expr : ExprParse} {bound : Nat} {s : Tape}

/-! ## Calls -/

theorem shortens_name : ShortensAny name s := by
  refine shortens_look fun t ht => ?_
  split
  · rename_i hk
    exact (shortens_drop ht (by rcases hk with hk | hk <;> simp [hk])).bind
  · exact shortens_reject

theorem shortens_operand : ShortensAny (operand expr bound) s := by
  refine shortens_look fun t ht => ?_
  cases hc : Constant.ofToken? t with
  | some c =>
    refine (shortens_drop ht fun hk => ?_).bind
    simp [Constant.ofToken?, hk, ConstantKind.ofKind?] at hc
  | none =>
    simp only
    split
    -- Names are taken as they are, and all else starts with a token that is demanded.
    case h_5 => exact ShortensAny.bind (ShortensAny.bind (shortens_demand (by decide)))
    case h_12 => exact shortens_reject
    all_goals
      rename_i hk
      first
      | exact (shortens_drop ht (by simp [hk])).bind
      | exact (shortens_demand (by decide)).bind

theorem shortens_group {kind : Brackets} : ShortensAny (group expr bound kind) s := by
  refine shortens_behind fun _ _ _ => shortens_behind fun _ _ _ => shortens_behind fun _ _ _ =>
    shortens_behind fun _ _ _ => ShortensAny.bind ?_
  exact (shortens_demand (by cases kind <;> decide)).bind

/-- Where a bracket stands, a call or subscript is taken. -/
theorem shortens_groups {n : Nat} {t : Token} (ht : s.front = .ok t)
    (hk : (Brackets.ofKind? t.kind).isSome = true) : ShortensAny (groups expr bound n) s := by
  cases n with
  | zero => exact shortens_reject
  | succ n =>
    refine shortens_look fun u hu => ?_
    cases ht.symm.trans hu
    obtain ⟨kind, hkind⟩ := Option.isSome_iff_exists.mp hk
    rw [hkind]
    exact shortens_group.bind

theorem shortens_formal : ShortensAny (formal expr) s := shortens_name.bind

theorem shortens_expression (bound levels m : Nat) (s : Tape) :
    ShortensAny (expression bound levels m) s :=
  fun _ _ hp _ => (advances_expression bound levels).shorter hp

theorem shortens_argument (hE : ∀ m s, ShortensAny (expr m) s) {close : TokenKind} :
    ShortensAny (argument expr close) s := by
  refine shortens_look fun t ht => ?_
  cases hn : ArgName.ofToken? t with
  | none => exact (hE 0 s).bind
  | some n =>
    refine shortens_behind fun u s₁ hu => ?_
    obtain rfl : s = s₁ := by
      rw [lookSecond, play] at hu
      split at hu <;> cases hu
      rfl
    split
    · refine (shortens_drop ht fun hk => ?_).bind
      simp [ArgName.ofToken?, hk] at hn
    · exact (hE 0 s).bind

/-! ## Turns -/

theorem shortens_statementsTurn (hE : ∀ m s, ShortensAny (expr m) s) {close : TokenKind}
    (es : List Expression) : Shortens Turn.GoesOn (statementsTurn expr close es) s := by
  refine shortens_look fun t ht => ?_
  split
  · rename_i hsep
    refine (shortens_drop ht ?_).bind
    rintro hk
    simp [hk, separates] at hsep
  · split
    · exact shortens_done id
    · split
      · exact shortens_reject
      · exact (hE 0 s).bind

theorem shortens_groupsTurn (gs : List Group) :
    Shortens Turn.GoesOn (groupsTurn expr bound gs) s := by
  refine shortens_look fun t ht => ?_
  cases Brackets.ofKind? t.kind with
  | none => exact shortens_done id
  | some kind => exact shortens_group.bind

/-- Either the calls and subscripts are taken, or the operator. -/
theorem shortens_operationsTurn {m : Nat} {loc : Location} (lhs : Expression) :
    Shortens Turn.GoesOn (operationsTurn expr bound m loc lhs) s := by
  refine shortens_look fun t ht => ?_
  split
  · rename_i hk
    exact (shortens_groups ht hk).bind
  · cases hp : Power.ofKind? t.kind with
    | none => exact shortens_done id
    | some power =>
      simp only
      split
      · exact shortens_done id
      · refine (shortens_drop ht ?_).bind
        rintro hk
        simp [hk, Power.ofKind?] at hp

/-- A slot may be empty, but the comma behind it is taken. -/
theorem shortens_slotsTurn {close : TokenKind} (as : List Argument) :
    Shortens Turn.GoesOn (slotsTurn expr close as) s := by
  refine shortens_behind fun first s₁ _ => shortens_look fun t ht => ?_
  split
  · rename_i hk
    exact (shortens_drop ht (by simp [hk])).bind
  · split
    · exact shortens_done id
    · exact shortens_reject

theorem shortens_formalsTurn (fs : List Formal) : Shortens Turn.GoesOn (formalsTurn expr fs) s :=
  shortens_formal.bind

/-- **Each turn of a loop that is not the last leaves fewer tokens.** -/
theorem LoopTurn.shortens {σ ρ : Type} {turn : σ → ExprParse → Parse (Turn σ ρ)}
    (h : LoopTurn bound turn) (hE : ∀ m s, ShortensAny (expr m) s) (x : σ) :
    Shortens Turn.GoesOn (turn x expr) s := by
  cases h with
  | statements close => exact shortens_statementsTurn hE x
  | operations m loc => exact shortens_operationsTurn x
  | groups => exact shortens_groupsTurn x
  | slots close => exact shortens_slotsTurn x
  | formals => exact shortens_formalsTurn x

end Grammar

/-! ## Bounds -/

namespace Parse

variable {α β : Type} {b : Nat}

/-- With fewer tokens left than the bound says, whatever is refused names what would be accepted
instead. So the parse does not run out of its bound. -/
def Ample (b : Nat) (p : Parse α) : Prop :=
  ∀ s e, s.Within b → p.play s = .error (.unexpected e) → e.expected ≠ []

theorem ample_done (a : α) : Ample b (done a) := fun _ _ _ h => nomatch h

theorem ample_reject {expected : List Continuation} (h : expected ≠ []) :
    Ample b (reject expected : Parse α) := by
  intro s e _ hp
  rw [play] at hp
  split at hp <;> cases hp
  exact h

theorem ample_tooDeep : Ample b (tooDeep : Parse α) := by
  intro s e _ hp
  rw [play] at hp
  split at hp <;> cases hp

theorem Ample.bind {p : Parse α} {f : α → Parse β} (h : Ample b p) (hf : ∀ a, Ample b (f a)) :
    Ample b (p.bind f) := by
  intro s e hs hp
  rw [play_bind] at hp
  split at hp
  · rename_i e' he
    cases hp
    exact h s e hs he
  · rename_i a s₁ ha
    exact hf a s₁ e (hs.of_play ha) hp

theorem ample_ahead (n : Nat) : Ample b (.ahead n done) := by
  intro s e _ hp
  rw [play] at hp
  split at hp <;> cases hp

theorem ample_take {f : Token → α} : Ample b (.take fun t => done (f t)) := by
  intro s e _ hp
  rw [play] at hp
  split at hp <;> cases hp

theorem ample_dropLines : Ample b dropLines := by
  intro s e _ hp
  rw [dropLines, play] at hp
  split at hp <;> cases hp

theorem ample_kindBeyondLines : Ample b kindBeyondLines := by
  intro s e _ hp
  rw [kindBeyondLines, play] at hp
  split at hp <;> cases hp

theorem ample_opened (layout : Layout) : Ample b (opened layout) := fun _ _ _ h => nomatch h

theorem ample_closed : Ample b closed := fun _ _ _ h => nomatch h

theorem ample_bracketed : Ample b bracketed := fun _ _ _ h => nomatch h

/-- A parse that explains all it refuses does not run out of any bound. -/
theorem Explains.ample {p : Parse α} (h : p.Explains) : Ample b p := by
  induction p with
  | done a => exact ample_done a
  | reject expected => exact ample_reject h
  | tooDeep => exact ample_tooDeep
  | ahead n k ih => exact (ample_ahead n).bind fun t => ih t (h t)
  | take k ih => exact ample_take.bind fun t => ih t (h t)
  | skipLines k ih => exact ample_dropLines.bind fun _ => ih () h
  | beyondLines k ih => exact ample_kindBeyondLines.bind fun kind => ih kind (h kind)
  | enter layout k ih => exact (ample_opened layout).bind fun _ => ih () h
  | leave k ih => exact ample_closed.bind fun _ => ih () h
  | inBrackets k ih => exact ample_bracketed.bind fun inside => ih inside (h inside)

/-- Turns that leave fewer tokens and do not run out of a bound do not run out of it together. -/
theorem ample_loop {σ ρ : Type} {turn : σ → Parse (Turn σ ρ)} (h : ∀ x, Ample b (turn x))
    (hturn : ∀ x s, Shortens Turn.GoesOn (turn x) s) (x : σ) : Ample b (loop turn b x) := by
  have hloop (n : Nat) : ∀ x s e, s.Within b → s.Within n →
      (loop turn n x).play s = .error (.unexpected e) → e.expected ≠ [] := by
    induction n with
    | zero => exact fun _ _ _ _ hn => hn.not_zero.elim
    | succ n ih =>
      intro x s e hs hn hp
      rw [loop, play_bind] at hp
      split at hp
      · rename_i e' he
        cases hp
        exact h x s e hs he
      · rename_i r s₁ hr
        cases r with
        | again y =>
          have hlt := hturn x s _ _ hr trivial
          exact ih y s₁ e (hs.of_play hr) (Nat.lt_of_lt_of_le hlt (Nat.le_of_lt_succ hn)) hp
        | exit r => cases hp
  exact fun s e hs => hloop b x s e hs hs

end Parse

namespace Grammar

open Parse

/-- If no expression runs out of the bound, no parse of the grammar does. -/
theorem composes_ample {expr : ExprParse} {b : Nat} (hE : ∀ m, Ample b (expr m))
    (hT : ∀ m s, ShortensAny (expr m) s) : Composes b fun p => Ample b (p expr) where
  request hp := hp.ample
  call := hE
  bind hp hf := hp.bind hf
  loop hloop hturn x := ample_loop hturn (fun y _ => hloop.shortens hT y) x

/-- **No expression runs out of its bound.** -/
theorem ample_expression (b levels m : Nat) : Ample b (expression b levels m) := by
  induction levels generalizing m with
  | zero => exact ample_tooDeep
  | succ levels ih => exact (composes_ample ih (shortens_expression b levels)).level m

theorem ample_program (b : Nat) : Ample b (program b) := by
  have hexpr (m : Nat) : Ample b (expression b maxNesting m) := ample_expression b maxNesting m
  have hstatements : Ample b (statements (expression b maxNesting) .eof b) :=
    (composes_ample hexpr (shortens_expression b maxNesting)).statements .eof
  exact hstatements.bind fun _ => ample_done _

end Grammar

/-! ## Reading -/

namespace Reader

theorem Reaches.length_le {r r' : Reader} {ts : List Token} (h : Reaches r ts r') :
    ts.length + r'.rest.length ≤ r.rest.length := by
  induction h with
  | here => exact (Nat.zero_add _).le
  | blanks r =>
    have hblank := congrArg List.length (Lexeme.blanks_append_afterBlanks r.rest)
    rw [List.length_append] at hblank
    simp only [skipBlanks, List.length_nil]
    omega
  | step hn hk _ ih =>
    have hlt := next_rest_lt hn hk
    rw [List.length_cons]
    omega

/-- What is shown next stands behind tokens that are hidden. -/
theorem nextShownWithin_reaches {hidden : TokenKind → Bool} (heof : hidden .eof = false)
    {left : List Char} {r : Reader} (hl : r.rest.length ≤ left.length) :
    ∃ ts r', Reaches r ts r' ∧ (∀ t ∈ ts, hidden t.kind = true) ∧
      nextShownWithin hidden left r = r'.next ∧
      ∀ t after, r'.next = .ok (t, after) → hidden t.kind = false := by
  induction left generalizing r with
  | nil =>
    obtain ⟨k, rest⟩ := r
    obtain rfl := List.length_eq_zero_iff.mp (Nat.le_zero.mp hl)
    refine ⟨[], _, .here _, fun _ h => (List.not_mem_nil h).elim, rfl, fun t after hn => ?_⟩
    cases (next_end k).symm.trans hn
    exact heof
  | cons c left ih =>
    rw [nextShownWithin]
    cases hn : r.next with
    | error e =>
      refine ⟨[], r, .here r, fun _ h => (List.not_mem_nil h).elim, hn.symm, fun t after h => ?_⟩
      cases hn.symm.trans h
    | ok p =>
      obtain ⟨t, after⟩ := p
      simp only
      split
      · rename_i hidden_t
        have hk : t.kind ≠ .eof := by
          rintro hk
          rw [hk, heof] at hidden_t
          cases hidden_t
        have hlt := next_rest_lt hn hk
        rw [List.length_cons] at hl
        obtain ⟨ts, r', hr, hts, hnext, hshown⟩ := ih (r := after) (by omega)
        exact ⟨t :: ts, r', .step hn hk hr, List.forall_mem_cons.mpr ⟨hidden_t, hts⟩, hnext, hshown⟩
      · rename_i shown_t
        refine ⟨[], r, .here r, fun _ h => (List.not_mem_nil h).elim, hn.symm, fun u _ h => ?_⟩
        cases hn.symm.trans h
        exact Bool.eq_false_iff.mpr shown_t

/-- Line feeds, and the comments between them, are passed over up to another token. -/
theorem skipLinesWithin_reaches {left : List Char} {r : Reader} (hl : r.rest.length ≤ left.length) :
    ∃ ts r', Reaches r ts r' ∧ (∀ t ∈ ts, t.kind = .comment ∨ t.kind = .newline) ∧
      ((∃ e, r'.nextShown (· == .comment) = .error e ∧ skipLinesWithin left r = .error e) ∨
        ∃ t after, r'.nextShown (· == .comment) = .ok (t, after) ∧ t.kind ≠ .newline ∧
          skipLinesWithin left r = .ok r') := by
  induction left generalizing r with
  | nil =>
    obtain ⟨k, rest⟩ := r
    obtain rfl := List.length_eq_zero_iff.mp (Nat.le_zero.mp hl)
    exact ⟨[], _, .here _, fun _ h => (List.not_mem_nil h).elim,
      .inr ⟨eofAt k, _, next_end k, TokenKind.noConfusion, rfl⟩⟩
  | cons c left ih =>
    rw [skipLinesWithin]
    cases hn : r.nextShown (· == .comment) with
    | error e =>
      exact ⟨[], r, .here r, fun _ h => (List.not_mem_nil h).elim, .inl ⟨e, hn, rfl⟩⟩
    | ok p =>
      obtain ⟨t, after⟩ := p
      simp only
      split
      · rename_i hk
        obtain ⟨ts, r₁, hr, hts, hnext, -⟩ :=
          @nextShownWithin_reaches (· == .comment) rfl r.rest r (Nat.le_refl _)
        have hstep : r₁.next = .ok (t, after) := hnext.symm.trans hn
        have heof : t.kind ≠ .eof := by simp [hk]
        have hlt := next_rest_lt hstep heof
        have hle := hr.length_le
        rw [List.length_cons] at hl
        obtain ⟨us, r', hr', hus, hend⟩ := ih (r := after) (by omega)
        refine ⟨ts ++ t :: us, r', hr.trans (.step hstep heof hr') (List.cons_ne_nil _ _), ?_, hend⟩
        intro u hu
        rcases List.mem_append.mp hu with hu | hu
        · exact .inl (eq_of_beq (hts u hu))
        · rcases List.mem_cons.mp hu with rfl | hu
          · exact .inr hk
          · exact hus u hu
      · rename_i hk
        exact ⟨[], r, .here r, fun _ h => (List.not_mem_nil h).elim, .inr ⟨t, after, hn, hk, rfl⟩⟩

/-- All tokens are read up to the end of the input or to a fault. -/
theorem tokensWithin_reaches {left : List Char} {r : Reader} (hl : r.rest.length ≤ left.length) :
    ∃ ts r', Reaches r ts r' ∧ (∀ t ∈ ts, t.kind ≠ .eof ∧ t.lexeme ≠ "") ∧
      ((∃ e, r'.next = .error e ∧ tokensWithin left r = .error e) ∨
        ∃ k, r' = ⟨k, []⟩ ∧ tokensWithin left r = .ok (ts ++ [eofAt k])) := by
  have hne {ts : List Token} {r' : Reader} (hr : Reaches r ts r') :
      ∀ t ∈ ts, t.kind ≠ .eof ∧ t.lexeme ≠ "" := by
    refine fun t ht => ⟨(hr.lexeme_ne t ht).1, fun hnil => (hr.lexeme_ne t ht).2 ?_⟩
    rw [Token.bytes, hnil]
    rfl
  cases h : tokensWithin left r with
  | error e =>
    obtain ⟨ts, r', hr, hn⟩ := reaches_of_tokensWithin_error hl h
    exact ⟨ts, r', hr, hne hr, .inl ⟨e, hn, rfl⟩⟩
  | ok us =>
    obtain ⟨ts, k, rfl, hr⟩ := reaches_of_tokensWithin hl h
    exact ⟨ts, _, hr, hne hr, .inr ⟨k, rfl, rfl⟩⟩

end Reader

/-! ## Progress -/

/-- A parse that succeeds takes tokens. -/
def Parse.Consuming {α : Type} (p : Parse α) : Prop :=
  ∀ s a s', p.run s = .ok (a, s') → Consumes s s'

theorem Parse.consuming_of_shortens {α : Type} {p : Parse α} (h : ∀ s, ShortensAny p s) :
    p.Consuming :=
  fun s _ _ hp => (h s.tape).consumes hp trivial

/-- A loop is made of turns. Each that is not the last takes tokens, so as many as it takes come to
the end that any bound above the number of tokens left comes to. -/
structure ReadsOn {σ ρ : Type} (p : Nat → Parse ρ) (turn : σ → Parse (Turn σ ρ)) (x : σ) :
    Prop where
  turns : ∀ n, p n = Parse.loop turn n x
  consumes : ∀ y s z s', (turn y).run s = .ok (.again z, s') → Consumes s s'
  ends : ∀ n s, s.unread.length < n → Parse.Repeats turn x s ((p n).run s)

theorem readsOn {σ ρ : Type} {p : Nat → Parse ρ} {turn : σ → Parse (Turn σ ρ)} {x : σ}
    (hp : ∀ n, p n = Parse.loop turn n x) (h : ∀ y s, Parse.Shortens Turn.GoesOn (turn y) s) :
    ReadsOn p turn x where
  turns := hp
  consumes y s _ _ hrun := (h y s.tape).consumes hrun trivial
  ends n s hn := by
    rw [hp]
    exact Parse.repeats_loop (fun hrun => ((h _ _).consumes hrun trivial).length_lt) hn

namespace Grammar

/-- The parses that nest so many levels take tokens, and their loops read on. -/
structure ParsesProgress (bound levels : Nat) : Prop where
  expression : ∀ m, (Grammar.expression bound levels m).Consuming
  operand : (Grammar.operand (Grammar.expression bound levels) bound).Consuming
  group : ∀ kind, (Grammar.group (Grammar.expression bound levels) bound kind).Consuming
  argument : ∀ close, (Grammar.argument (Grammar.expression bound levels) close).Consuming
  statements : ∀ close, ReadsOn (Grammar.statements (Grammar.expression bound levels) close)
    (statementsTurn (Grammar.expression bound levels) close) []
  operations : ∀ m loc lhs,
    ReadsOn (fun n => Grammar.operations (Grammar.expression bound levels) bound m loc n lhs)
    (operationsTurn (Grammar.expression bound levels) bound m loc) lhs
  groups : ReadsOn (Grammar.groups (Grammar.expression bound levels) bound)
    (groupsTurn (Grammar.expression bound levels) bound) []
  slots : ∀ close, ReadsOn (Grammar.slots (Grammar.expression bound levels) close)
    (slotsTurn (Grammar.expression bound levels) close) []
  formals : ReadsOn (someFormals (Grammar.expression bound levels))
    (formalsTurn (Grammar.expression bound levels)) []

theorem parsesProgress (bound levels : Nat) : ParsesProgress bound levels where
  expression m := Parse.consuming_of_shortens (shortens_expression bound levels m)
  operand := Parse.consuming_of_shortens fun _ => shortens_operand
  group _ := Parse.consuming_of_shortens fun _ => shortens_group
  argument _ := Parse.consuming_of_shortens fun _ =>
    shortens_argument (shortens_expression bound levels)
  statements _ := readsOn (fun _ => statements_eq_loop)
    fun es _ => shortens_statementsTurn (shortens_expression bound levels) es
  operations _ _ lhs := readsOn (fun _ => operations_eq_loop lhs)
    fun lhs _ => shortens_operationsTurn lhs
  groups := readsOn (fun _ => groups_eq_loop) fun gs _ => shortens_groupsTurn gs
  slots _ := readsOn (fun _ => slots_eq_loop) fun as _ => shortens_slotsTurn as
  formals := readsOn (fun _ => someFormals_eq_loop) fun fs _ => shortens_formalsTurn fs

end Grammar

namespace Reader

/-- What reading from here on comes to, however many steps more than characters left it has. -/
structure ReadingEnds (r : Reader) (left : List Char) : Prop where
  tokens : ∃ ts r', Reaches r ts r' ∧ (∀ t ∈ ts, t.kind ≠ .eof ∧ t.lexeme ≠ "") ∧
    ((∃ e, r'.next = .error e ∧ tokensWithin left r = .error e) ∨
      ∃ k, r' = ⟨k, []⟩ ∧ tokensWithin left r = .ok (ts ++ [eofAt k]))
  shown : ∀ hidden, hidden .eof = false → ∃ ts r', Reaches r ts r' ∧
    (∀ t ∈ ts, hidden t.kind = true) ∧ nextShownWithin hidden left r = r'.next ∧
    ∀ t after, r'.next = .ok (t, after) → hidden t.kind = false
  lines : ∃ ts r', Reaches r ts r' ∧ (∀ t ∈ ts, t.kind = .comment ∨ t.kind = .newline) ∧
    ((∃ e, r'.nextShown (· == .comment) = .error e ∧ skipLinesWithin left r = .error e) ∨
      ∃ t after, r'.nextShown (· == .comment) = .ok (t, after) ∧ t.kind ≠ .newline ∧
        skipLinesWithin left r = .ok r')

theorem readingEnds {r : Reader} {left : List Char} (h : r.rest.length ≤ left.length) :
    ReadingEnds r left :=
  ⟨tokensWithin_reaches h, fun _ heof => nextShownWithin_reaches heof h, skipLinesWithin_reaches h⟩

end Reader

/-- A parse of the bytes comes to the same whatever bounds its lists, as long as that is more than
there are tokens, and it never runs out of the bound: all it refuses it refuses for the sake of
something else. -/
structure ParseEnds (bytes : List UInt8) : Prop where
  bound : ∀ text b, decodeSource bytes = .ok text → (Feed.ofText text).unread.length < b →
    ((Grammar.program b).run (.ofText text)).map Prod.fst = parse bytes
  named : ∀ e, parse bytes = .error (.unexpected e) → e.expected ≠ []

theorem parseEnds (bytes : List UInt8) : ParseEnds bytes := by
  have hplay (text : List Char) (b : Nat) (hb : (Feed.ofText text).unread.length < b) :
      ((Grammar.program b).run (.ofText text)).map Prod.fst = parseText text := by
    rw [parseText_play hb, Parse.play_tape]
    generalize Parse.run _ _ = x
    cases x <;> rfl
  refine ⟨fun text b htext hb => ?_, fun e he => ?_⟩
  · rw [parse, htext]
    exact hplay text b hb
  · rw [parse] at he
    split at he
    · cases he
    · rename_i text _
      have hwithin : (Feed.tape (.ofText text)).Within (text.length + 1) :=
        Feed.within_tape _ (Nat.lt_succ_self _)
      rw [parseText_play hwithin] at he
      generalize hx : Parse.play _ (Feed.tape (.ofText text)) = x at he
      cases x with
      | ok x => cases he
      | error e' =>
        cases he
        exact Grammar.ample_program _ _ e hwithin hx

/-- **Parses read on, and so end**, whatever the input is. Every expression, operand, group and
argument takes tokens, and so does every turn of a loop that is not its last. Reading itself passes
nothing that is empty. -/
theorem parser_progresses :
    (∀ bound levels, Grammar.ParsesProgress bound levels) ∧
    (∀ r left, r.rest.length ≤ left.length → Reader.ReadingEnds r left) ∧
    ∀ bytes, ParseEnds bytes :=
  ⟨Grammar.parsesProgress, fun _ _ => Reader.readingEnds, parseEnds⟩

end RSource
