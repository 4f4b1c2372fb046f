import RSource.Proofs.ReflowBracketed
import RSource.Proofs.Written

/-!
# Statements and control forms, side by side

* `matches_statements` — the statements up to a closing token, where the second source may have
  more line feeds behind the first of them.
* `matches_parenthesized`, `matches_body` — what stands in a header and behind it.
* `matches_elseFollows` — both sources agree on whether an `else` goes on with the form.
* `matches_block`, `matches_function`, `matches_ifForm` and the like — **the operands that hold
  other expressions**.
-/

namespace RSource

namespace Grammar

open Parse Pairing

variable {P : Pairing} {expr expr' : ExprParse} {b b' : Nat} {s r : Tape} {o : List Bracket}
  {j : Bool}

/-! ## Statements -/

/-- Line feeds in front of statements are passed over one by one. -/
theorem play_statements_lines (expr : ExprParse) (close : TokenKind) {lines us : List Token}
    {n : Nat} {r' : Tape} (hfree : r.isFree = false) (hr : r.tokens = lines ++ us)
    (hl : ∀ l ∈ lines, l.kind = .newline) (ht : r'.tokens = us) (he : r'.ending = r.ending)
    (hls : r'.layouts = r.layouts) :
    (statements expr close (lines.length + n)).play r = (statements expr close n).play r' := by
  induction lines generalizing r with
  | nil =>
      have heq : r' = r := Tape.ext (ht.trans hr.symm) he hls
      rw [List.length_nil, Nat.zero_add, heq]
  | cons l lines ih =>
      have hk := hl l (List.mem_cons_self ..)
      have hshown := Tape.shown_of_lined hfree
      have hfront : r.front = .ok l := by rw [Tape.front, hshown]; exact Tape.head_cons hr
      have hpast : r.past.tokens = lines ++ us := by
        rw [Tape.past, hshown, Tape.tail_tokens, hr]
        rfl
      have hrest := ih (r := r.past) ((Tape.isFree_past r).trans hfree) hpast
        (fun m hm => hl m (List.mem_cons_of_mem _ hm)) (by rw [he, Tape.past_ending])
        (by rw [hls, Tape.past_layouts])
      rw [← hrest, List.length_cons, Nat.add_right_comm, statements]
      simp [play_bind, look, Tape.ahead, hfront, hk, separates, drop]

/-- Line feeds added in front of statements can be passed over at once. -/
theorem exists_settled (expr : ExprParse) (close : TokenKind) {n : Nat}
    (h : P.Stands j o s r) (hr : r.Within b) (hn : r.Within n) :
    ∃ r' n', P.Stands false o s r' ∧ r'.Within b ∧ r'.Within n' ∧
      (statements expr close n).play r = (statements expr close n').play r' := by
  cases hfree : Scope.isFree ⟨o, false⟩ with
  | true => exact ⟨r, n, h.settle hfree, hr, hn, rfl⟩
  | false =>
      obtain ⟨lines, us, htok, hl, -, hrest⟩ := h.tokens
      have hlen : r.tokens.length = lines.length + us.length := by rw [htok, List.length_append]
      unfold Tape.Within at hr hn
      obtain ⟨n', rfl⟩ := Nat.exists_eq_add_of_le (show lines.length ≤ n by omega)
      have hsuffix : us <:+ r.tokens := ⟨lines, htok.symm⟩
      refine ⟨r.cut us hsuffix, n', ⟨h.layouts, h.layouts', h.ending, h.ending', hrest.ahead _⟩,
        ?_, ?_, play_statements_lines expr close (h.isFree.2.trans hfree) htok hl rfl rfl rfl⟩
      · show us.length < b
        omega
      · show us.length < n'
        omega

/-- A token that separates statements opens and closes nothing. -/
theorem step_separator {k : TokenKind} (hk : separates k = true) :
    Scope.step ⟨o, false⟩ k = ⟨o, false⟩ ∧ k ≠ .eof := by
  have hk' : k = .newline ∨ k = .semicolon := by simpa [separates] using hk
  rcases hk' with rfl | rfl <;> exact ⟨rfl, by simp⟩

theorem stands_separated (h : P.Stands false o s r) {t : Token} (ht : s.front = .ok t)
    (hk : separates t.kind = true) :
    P.Stands (Scope.joins ⟨o, false⟩ t.kind) o s.past r.past := by
  obtain ⟨hstep, hne⟩ := step_separator (o := o) hk
  have hp := h.past ht hne
  rwa [hstep] at hp

section Statement

variable (hE : Pairs P expr expr' b b')

include hE

theorem matches_statements (close : TokenKind) {n n' : Nat} (hover : ¬ P.Over ⟨o, false⟩)
    (h : P.Stands j o s r) (hs : s.Within b) (hr : r.Within b') (hn : s.Within n)
    (hn' : r.Within n') :
    P.Matches (P.Same relocateExpressions) (P.Stands false o)
      ((statements expr close n).play s) ((statements expr' close n').play r) := by
  induction n generalizing n' s r j with
  | zero => exact hn.not_zero.elim
  | succ n ih =>
      obtain ⟨r, n', h, hr, hn', heq⟩ := exists_settled expr' close h hr hn'
      rw [heq]
      obtain ⟨n', rfl⟩ := hn'.exists_succ
      rw [statements, statements, bind_eq_bind, bind_eq_bind]
      refine h.look_inside hover fun t u ht hu htu => ?_
      rw [htu.kind]
      split
      · rename_i hk
        have hne := (step_separator (o := o) hk).2
        have hne' : u.kind ≠ .eof := by rwa [htu.kind]
        exact h.drop ht hu hne fun _ => ih (stands_separated h ht hk) hs.past hr.past
          (hn.past_lt ht hne) (hn'.past_lt hu hne')
      · split
        · exact .ok rfl h
        · split
          · exact h.reject _
          · refine (hE.play h hs hr).bind fun e s₁ e' r₁ hp hp' he h₁ => ?_
            have hlt := hE.left.shorter hp
            have hlt' := hE.right.shorter hp'
            refine h₁.look_inside hover fun v w hv hw hvw => ?_
            rw [hvw.kind]
            split
            · refine (ih h₁ (hs.of_play hp) (hr.of_play hp') ?_ ?_).map fun es es' hes => ?_
              · exact Nat.lt_of_lt_of_le hlt (Nat.le_of_lt_succ hn)
              · exact Nat.lt_of_lt_of_le hlt' (Nat.le_of_lt_succ hn')
              · simp [Same, relocateExpressions, he, hes]
            · exact h₁.reject _

/-! ## Headers and bodies -/

/-- An expression behind line feeds. -/
theorem matches_behind {m : Nat} (h : P.Stands j o s r) (hs : s.Within b) (hr : r.Within b') :
    P.Matches (P.Same Expression.relocate) (P.Stands false o)
      ((dropLines.bind fun _ => expr m).play s) ((dropLines.bind fun _ => expr' m).play r) :=
  At.dropLines h (fun h₁ => hE.play h₁ hs.afterLines hr.afterLines) fun _ hx =>
    (hE.left.starts hx).tokens_ne_nil

theorem matches_body (h : P.Stands j o s r) (hs : s.Within b) (hr : r.Within b') :
    P.Matches (P.Same Expression.relocate) (P.Stands false o) ((body expr).play s)
      ((body expr').play r) :=
  matches_behind hE h hs hr

/-- The bracket that a parenthesis opens. -/
abbrev parenOf (header : Bool) : Bracket := if header then .header else .paren

omit hE in
/-- Inside a parenthesis that both tapes go into. -/
theorem stands_opened (header : Bool)
    (h : P.At false (Scope.step ⟨o, header⟩ .lparen) (o.map Bracket.layout) s r) :
    P.Stands false (parenOf header :: o) (s.enter .free) (r.enter .free) := by
  cases header <;> exact h.enter .free

omit hE in
/-- Outside it again: behind a header line feeds may be added. -/
theorem stands_closed (header : Bool)
    (h : P.At (Scope.joins ⟨parenOf header :: o, false⟩ .rparen)
      (Scope.step ⟨parenOf header :: o, false⟩ .rparen)
      (Scope.layouts ⟨parenOf header :: o, false⟩) s r) :
    P.Stands header o s.leave r.leave := by
  cases header <;> exact h.leave

/-- An expression in parentheses. -/
theorem matches_parenthesized {header : Bool}
    (h : P.At false ⟨o, header⟩ (o.map Bracket.layout) s r) (hs : s.Within b) (hr : r.Within b') :
    P.Matches (P.Same Expression.relocate) (P.Stands header o) ((parenthesized expr).play s)
      ((parenthesized expr').play r) := by
  rw [parenthesized, parenthesized]
  simp only [bind_eq_bind, pure_eq_done]
  refine At.demand h (by simp) fun _ _ _ _ hp _ => ?_
  rw [play_opened, play_opened]
  have hin := stands_opened header hp
  refine (hE.play hin hs.past.enter hr.past.enter).bind fun e s₁ e' r₁ _ _ he h₁ => ?_
  refine At.demand h₁ (by simp) fun _ _ _ _ hq _ => ?_
  rw [play_closed, play_closed]
  exact .ok he (stands_closed header hq)

theorem matches_paren (h : P.Stands false o s r) (hs : s.Within b) (hr : r.Within b') :
    P.Matches (P.Same Operand.relocate) (P.Stands false o) ((paren expr).play s)
      ((paren expr').play r) :=
  (matches_parenthesized hE h hs hr).map fun _ _ he => congrArg Operand.paren he

theorem matches_block (h : P.Stands false o s r) (hs : s.Within b) (hr : r.Within b') :
    P.Matches (P.Same Operand.relocate) (P.Stands false o) ((block expr b).play s)
      ((block expr' b').play r) := by
  rw [block, block]
  simp only [bind_eq_bind, pure_eq_done]
  refine At.demand h (by simp) fun t u _ htu hp _ => ?_
  rw [play_opened, play_opened]
  have hin : P.Stands true (.brace :: o) (s.past.enter .lined) (r.past.enter .lined) := hp.enter _
  refine (matches_statements hE .rbrace (inside _ o) hin hs.past hr.past hs.past hr.past).bind
    fun es s₁ es' r₁ _ _ hes h₁ => ?_
  refine At.demand h₁ (by simp) fun v w _ hvw hq _ => ?_
  rw [play_closed, play_closed]
  refine .ok ?_ hq.leave
  simp [Same, Operand.relocate, htu.loc, hes, hvw.loc]

/-! ## Control forms -/

theorem matches_function (h : P.Stands false o s r) (hs : s.Within b) (hr : r.Within b') :
    P.Matches (P.Same Operand.relocate) (P.Stands false o) ((function expr b).play s)
      ((function expr' b').play r) := by
  rw [function, function]
  simp only [bind_eq_bind, pure_eq_done]
  refine At.demand h (by simp) fun t u _ htu hp _ => ?_
  refine At.demand hp (by simp) fun _ _ _ _ hq _ => ?_
  rw [play_opened, play_opened]
  have hin := stands_opened true hq
  refine (matches_formals hE rfl hin hs.past.past.enter hr.past.past.enter).bind
    fun ps s₁ ps' r₁ hps hps' hrel h₁ => ?_
  have hs₁ := hs.past.past.enter.of_play hps
  have hr₁ := hr.past.past.enter.of_play hps'
  refine At.demand h₁ (by simp) fun _ _ _ _ hc _ => ?_
  rw [play_closed, play_closed]
  have hbody := stands_closed true hc
  refine (matches_body hE hbody hs₁.past.leave hr₁.past.leave).map fun e e' he => ?_
  simp [Same, Operand.relocate, htu.loc, hrel, he]

omit hE in
/-- An `else` that decides stands right behind any line feeds. -/
theorem tokens_of_else {t : Token} (ht : s.clause = .ok t) (hk : t.kind = .elseWord) :
    s.afterLines.tokens ≠ [] := by
  intro hnil
  unfold Tape.clause at ht
  split at ht
  · rw [Tape.beyond, Tape.head_nil hnil] at ht
    have heof := s.afterLines.ending_eof t ht
    simp [hk] at heof
  · obtain ⟨lines, htok, -⟩ := Tape.tokens_of_front ht (by simp [hk])
    have hall : ∀ u ∈ s.tokens, u.kind = .newline := by
      simpa [Tape.afterLines_tokens, List.dropWhile_eq_nil_iff] using hnil
    have hline := hall t (by rw [htok]; simp)
    simp [hk] at hline

omit hE in
/-- What decides on an `else` decides alike in both sources. -/
theorem clause_alike (h : P.Stands false o s r) :
    (∃ e e', s.clause = .error e ∧ r.clause = .error e' ∧
      e.relocate P.left = e'.relocate P.right) ∨
    ∃ t u, s.clause = .ok t ∧ r.clause = .ok u ∧ (u.kind == .elseWord) = (t.kind == .elseWord) := by
  unfold Tape.clause
  rw [h.inBrackets]
  cases hin : s.inBrackets with
  | true =>
      have hopen : ¬ P.Over ⟨o, false⟩ := by
        intro ho
        simp [Tape.inBrackets, h.layouts, show o = [] from ho.outside] at hin
      rcases h.beyonds with ⟨t, u, ht, hu, htu, -⟩ | ⟨e, e', he, he', heq⟩ | ⟨ho, -⟩
      · exact Or.inr ⟨t, u, ht, hu, by rw [htu.kind]⟩
      · exact Or.inl ⟨e, e', he, he', heq⟩
      · exact absurd ho hopen
  | false =>
      cases h.fronts with
      | token ht hu htu | eof ht hu htu => exact Or.inr ⟨_, _, ht, hu, by rw [htu.kind]⟩
      | fault he he' heq => exact Or.inl ⟨_, _, he, he', heq⟩
      | surplus ht hk hu hn => exact Or.inr ⟨_, _, ht, hu, by rw [hk, hn]; rfl⟩

omit hE in
/-- Both sources agree on whether an `else` goes on with the form just read. -/
theorem matches_elseFollows {α : Type} {R : α → α → Prop} {N : Tape → Tape → Prop}
    {f g : Bool → Parse α} (h : P.Stands false o s r)
    (hyes : s.afterLines.tokens ≠ [] → P.Matches R N ((f true).play s) ((g true).play r))
    (hno : P.Matches R N ((f false).play s) ((g false).play r)) :
    P.Matches R N ((elseFollows.bind f).play s) ((elseFollows.bind g).play r) := by
  rw [play_elseFollows, play_elseFollows]
  rcases clause_alike h with ⟨e, e', he, he', heq⟩ | ⟨t, u, ht, hu, hkind⟩
  · rw [he, he']
    exact .error (congrArg Error.lexical heq)
  · rw [ht, hu]
    simp only [hkind]
    cases hk : t.kind == .elseWord with
    | true => exact hyes (tokens_of_else ht (by simpa using hk))
    | false => exact hno

theorem matches_ifForm (h : P.Stands false o s r) (hs : s.Within b) (hr : r.Within b') :
    P.Matches (P.Same Operand.relocate) (P.Stands false o) ((ifForm expr).play s)
      ((ifForm expr').play r) := by
  rw [ifForm, ifForm]
  simp only [bind_eq_bind, pure_eq_done]
  refine At.demand h (by simp) fun t u _ htu hp _ => ?_
  refine (matches_parenthesized hE hp hs.past hr.past).bind fun c s₁ c' r₁ hc hc' hcc h₁ => ?_
  have hs₁ := hs.past.of_play hc
  have hr₁ := hr.past.of_play hc'
  refine (matches_body hE h₁ hs₁ hr₁).bind fun e s₂ e' r₂ he he' hee h₂ => ?_
  have hs₂ := hs₁.of_play he
  have hr₂ := hr₁.of_play he'
  refine matches_elseFollows h₂ (fun hne => ?_) (.ok ?_ h₂)
  · refine At.dropLines h₂ (fun h₃ => ?_) fun _ _ => hne
    refine At.demand h₃ (by simp) fun _ _ _ _ hw _ => ?_
    have h₄ : P.Stands true o s₂.afterLines.past r₂.afterLines.past := hw
    refine (matches_body hE h₄ hs₂.afterLines.past hr₂.afterLines.past).map fun x x' hx => ?_
    simp [Same, Operand.relocate, htu.loc, hcc, hee, hx]
  · simp [Same, Operand.relocate, htu.loc, hcc, hee]

theorem matches_forLoop (h : P.Stands false o s r) (hs : s.Within b) (hr : r.Within b') :
    P.Matches (P.Same Operand.relocate) (P.Stands false o) ((forLoop expr).play s)
      ((forLoop expr').play r) := by
  rw [forLoop, forLoop]
  simp only [bind_eq_bind, pure_eq_done]
  refine At.demand h (by simp) fun t u _ htu hp _ => ?_
  refine At.demand hp (by simp) fun _ _ _ _ hq _ => ?_
  rw [play_opened, play_opened]
  have hin := stands_opened true hq
  refine (matches_name hin rfl).bind fun i s₁ i' r₁ hi hi' hrel h₁ => ?_
  have hs₁ := hs.past.past.enter.of_play hi
  have hr₁ := hr.past.past.enter.of_play hi'
  refine At.demand h₁ (by simp) fun _ _ _ _ hw _ => ?_
  have h₂ : P.Stands false (parenOf true :: o) s₁.past r₁.past := hw
  refine (hE.play h₂ hs₁.past hr₁.past).bind fun q s₂ q' r₂ hq hq' hqq h₃ => ?_
  have hs₂ := hs₁.past.of_play hq
  have hr₂ := hr₁.past.of_play hq'
  refine At.demand h₃ (by simp) fun _ _ _ _ hc _ => ?_
  rw [play_closed, play_closed]
  have hbody := stands_closed true hc
  refine (matches_body hE hbody hs₂.past.leave hr₂.past.leave).map fun e e' he => ?_
  simp [Same, Operand.relocate, htu.loc, hrel, hqq, he]

theorem matches_whileLoop (h : P.Stands false o s r) (hs : s.Within b) (hr : r.Within b') :
    P.Matches (P.Same Operand.relocate) (P.Stands false o) ((whileLoop expr).play s)
      ((whileLoop expr').play r) := by
  rw [whileLoop, whileLoop]
  simp only [bind_eq_bind, pure_eq_done]
  refine At.demand h (by simp) fun t u _ htu hp _ => ?_
  refine (matches_parenthesized hE hp hs.past hr.past).bind fun c s₁ c' r₁ hc hc' hcc h₁ => ?_
  refine (matches_body hE h₁ (hs.past.of_play hc) (hr.past.of_play hc')).map fun e e' he => ?_
  simp [Same, Operand.relocate, htu.loc, hcc, he]

theorem matches_repeatLoop (h : P.Stands false o s r) (hs : s.Within b) (hr : r.Within b') :
    P.Matches (P.Same Operand.relocate) (P.Stands false o) ((repeatLoop expr).play s)
      ((repeatLoop expr').play r) := by
  rw [repeatLoop, repeatLoop]
  simp only [bind_eq_bind, pure_eq_done]
  refine At.demand h (by simp) fun t u _ htu hp _ => ?_
  have hbody : P.Stands true o s.past r.past := hp
  refine (matches_body hE hbody hs.past hr.past).map fun e e' he => ?_
  simp [Same, Operand.relocate, htu.loc, he]

end Statement

end Grammar

end RSource
