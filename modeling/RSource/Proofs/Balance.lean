import RSource.Proofs.Blanks

/-!
# Where an accepted source ends

The statements of an accepted source are read in any source that goes on behind it, and there its
brackets are all closed.

* `Pairing.Reflows.prepend` — tokens put in front of two sources.
* `play_statements_continue` — **the statements of the first source are the first of the second,
  which goes on where the first one ends**.
* `run_of_parseFeed` — **the brackets of an accepted source are all closed at its end**.
-/

namespace RSource

/-! ## Tokens in front -/

theorem not_adjoins_of_ascending {t v : Token} {vs : List Token} (h : Ascending (t :: v :: vs))
    (hv : v.kind = .newline) : ¬ Adjoins t (v :: vs) := by
  obtain ⟨hlt, hrest⟩ := List.pairwise_cons.mp h
  exact not_adjoins_newline hv (hlt v (List.mem_cons_self ..)) (List.pairwise_cons.mp hrest).1

/-- What adjoins a token is decided by the token behind it. -/
theorem adjoins_append_iff {t : Token} {ts us us' : List Token} (h : Ascending (t :: (ts ++ us)))
    (h' : Ascending (t :: (ts ++ us'))) (hend : ts = [] → (Adjoins t us ↔ Adjoins t us')) :
    Adjoins t (ts ++ us) ↔ Adjoins t (ts ++ us') := by
  cases ts with
  | nil => exact hend rfl
  | cons v vs =>
      by_cases hv : v.kind = .newline
      · exact iff_of_false (not_adjoins_of_ascending h hv) (not_adjoins_of_ascending h' hv)
      · exact (adjoins_cons hv).trans (adjoins_cons hv).symm

/-- The same tokens may be put in front of both sources. -/
theorem Pairing.Reflows.prepend {P : Pairing} (hsame : P.left = P.right) {c : Scope}
    {ts us us' : List Token} (h : P.Reflows (c.run (ts.map (·.kind))) us us')
    (hend : ∀ t, Ascending (t :: us) → Ascending (t :: us') → (Adjoins t us ↔ Adjoins t us'))
    (ha : Ascending (ts ++ us)) (ha' : Ascending (ts ++ us')) :
    P.Reflows c (ts ++ us) (ts ++ us') := by
  induction ts generalizing c with
  | nil => exact h
  | cons t ts ih =>
      have hrest := ih h (List.pairwise_cons.mp ha).2 (List.pairwise_cons.mp ha').2
      have hadj := adjoins_append_iff ha ha' fun hnil => by
        rw [hnil] at ha ha'
        exact hend t ha ha'
      exact .cons ⟨rfl, rfl, by rw [hsame]⟩ (fun _ => hadj) hrest

/-! ## Statements and what follows them -/

namespace Pairing

variable {P : Pairing} {s r : Tape} {t : Token}

/-- Where the first source has a token, the second one has its twin. -/
theorem At.front_of_token {c : Scope} (h : P.At false c c.layouts s r) (ht : s.front = .ok t)
    (hk : t.kind ≠ .eof) : ∃ u, r.front = .ok u ∧ P.Twins t u := by
  cases h.fronts with
  | token ht' hu htu => rw [ht] at ht'; cases ht'; exact ⟨_, hu, htu⟩
  | eof ht' _ _ hk' | surplus ht' hk' => rw [ht] at ht'; cases ht'; exact absurd hk' hk
  | fault he => rw [ht] at he; cases he

/-- Where the first source ends, the second one stops. -/
theorem At.stops_of_eof (h : P.Stands false [] s r) (ht : s.front = .ok t) (hk : t.kind = .eof) :
    P.stops .start r.tokens := by
  have hshown := h.shown
  have hnil : s.shown.tokens = [] := Tape.tokens_of_end ht hk
  rw [hnil, Tape.shown_of_lined h.isFree.2] at hshown
  generalize r.tokens = us at hshown
  cases hshown with
  | stop hstop => exact hstop

end Pairing

namespace Grammar

open Parse Pairing

variable {P : Pairing} {expr expr' : ExprParse} {b b' : Nat} {es : List Expression}

/-- The statements have been read in the second source, which goes on where the first one ends. -/
def Continues (P : Pairing) (expr' : ExprParse) (b' : Nat) (es : List Expression)
    (y : Except Error (List Expression × Tape)) : Prop :=
  ∃ es' r m, P.Same relocateExpressions es es' ∧ P.stops .start r.tokens ∧ r.layouts = [] ∧
    r.ending = P.rightEnd ∧ r.Within b' ∧ r.Within m ∧
    y = ((statements expr' .eof m).play r).map fun x => (es' ++ x.1, x.2)

theorem Continues.cons {e e' : Expression} {y : Except Error (List Expression × Tape)}
    (h : Continues P expr' b' es y) (he : P.Same Expression.relocate e e') :
    Continues P expr' b' (e :: es) (y.map fun x => (e' :: x.1, x.2)) := by
  obtain ⟨es', r, m, hes, hstop, hl, hending, hb, hm, rfl⟩ := h
  refine ⟨e' :: es', r, m, by simp [Same, relocateExpressions, he, hes], hstop, hl, hending, hb,
    hm, ?_⟩
  cases (statements expr' .eof m).play r <;> rfl

/-- A match with a success is a success. -/
theorem matches_ok {α : Type} {R : α → α → Prop} {N : Tape → Tape → Prop} {a : α} {s : Tape}
    {y : Except Error (α × Tape)} (h : P.Matches R N (.ok (a, s)) y) :
    ∃ b r, y = .ok (b, r) ∧ R a b ∧ N s r := by
  cases h with
  | ok hr hn => exact ⟨_, _, rfl, hr, hn⟩

/-- Whether a token may follow a statement. -/
abbrev endsStatement (close k : TokenKind) : Bool :=
  separates k || k == close || k == .eof || startsExpression k

/-- What may follow a statement in the first source follows it in the second, which may go on with a
line feed where the first one ends. -/
theorem exists_endsStatement {close : TokenKind} {s r : Tape} {t : Token}
    (h : P.Stands false [] s r) (ht : s.front = .ok t) (hf : endsStatement close t.kind = true) :
    ∃ u, r.front = .ok u ∧ endsStatement close u.kind = true := by
  cases h.fronts with
  | token ht' hu htu | eof ht' hu htu =>
      rw [ht] at ht'
      cases ht'
      exact ⟨_, hu, by rwa [htu.kind]⟩
  | fault he => rw [ht] at he; cases he
  | surplus _ _ hu hn => exact ⟨_, hu, by rw [hn]; rfl⟩

/-- **The statements of the first source are the first of the second**, which goes on where the
first one ends. -/
theorem play_statements_continue (hE : Pairs P expr expr' b b') {j : Bool} {n n' : Nat}
    {s s' r : Tape} (h : P.Stands j [] s r) (hs : s.Within b) (hr : r.Within b')
    (hn : s.Within n) (hn' : r.Within n')
    (hp : (statements expr .eof n).play s = .ok (es, s')) :
    Continues P expr' b' es ((statements expr' .eof n').play r) := by
  induction n generalizing n' s r j es with
  | zero => exact hn.not_zero.elim
  | succ n ih =>
      obtain ⟨r, n', h, hr, hn', heq⟩ := exists_settled expr' .eof h hr hn'
      rw [heq]
      rw [statements, bind_eq_bind, play_look_ok] at hp
      obtain ⟨t, ht, hp⟩ := hp
      by_cases hk : t.kind = .eof
      · -- At its end the first source has no more statements.
        rw [if_neg (by simp [hk, separates]), if_pos hk] at hp
        cases hp
        refine ⟨[], r, n', rfl, At.stops_of_eof h ht hk, h.layouts', h.ending', hr, hn', ?_⟩
        cases (statements expr' .eof n').play r <;> rfl
      · obtain ⟨u, hu, htu⟩ := h.front_of_token ht hk
        have hk' : u.kind ≠ .eof := by rwa [htu.kind]
        obtain ⟨n', rfl⟩ := hn'.exists_succ
        rw [if_neg hk, if_neg hk] at hp
        split at hp
        · rename_i hsep
          rw [bind_eq_bind, play_drop_bind_ok] at hp
          have hrest := ih (stands_separated h ht hsep) hs.past hr.past (hn.past_lt ht hk)
            (hn'.past_lt hu hk') hp.2
          have hsep' : separates u.kind = true := by rwa [htu.kind]
          rw [statements]
          simpa [play_bind, look, drop, Tape.ahead, hu, hsep'] using hrest
        · rename_i hsep
          obtain ⟨e, s₁, he, hp⟩ := play_bind_ok.mp hp
          obtain ⟨v, hv, hp⟩ := play_look_ok.mp hp
          have hmatch := hE.play (m := 0) h hs hr
          rw [he] at hmatch
          obtain ⟨e', r₁, he', hsame, h₁⟩ := matches_ok hmatch
          split at hp
          · rename_i hf
            obtain ⟨es, s₂, hes, hp⟩ := play_bind_ok.mp hp
            cases hp
            obtain ⟨w, hw, hf'⟩ := exists_endsStatement h₁ hv hf
            have hlt := hE.left.shorter he
            have hlt' := hE.right.shorter he'
            have hrest := ih h₁ (hs.of_play he) (hr.of_play he')
              (Nat.lt_of_lt_of_le hlt (Nat.le_of_lt_succ hn))
              (Nat.lt_of_lt_of_le hlt' (Nat.le_of_lt_succ hn')) hes
            have hsep' : separates u.kind = false := by rw [htu.kind]; simpa using hsep
            have hplay : (statements expr' .eof (n' + 1)).play r =
                ((statements expr' .eof n').play r₁).map fun x => (e' :: x.1, x.2) := by
              rw [statements, bind_eq_bind, play_bind, look, play, Tape.ahead, hu]
              simp only [play, hsep', hk', Bool.false_eq_true, if_false, bind_eq_bind, play_bind,
                he', Tape.ahead, hw]
              rw [if_pos hf', play_bind]
              cases (statements expr' .eof n').play r₁ <;> rfl
            rw [hplay]
            exact hrest.cons hsame
          · exact absurd hp play_reject_ne_ok

end Grammar

/-! ## Sources -/

theorem play_of_parseFeed {s : Feed} {p : Program} (h : parseFeed s = .ok p) :
    ∃ s', (Grammar.statements (Grammar.expression (s.reader.rest.length + 1) maxNesting) .eof
      (s.reader.rest.length + 1)).play s.tape = .ok (p.statements, s') := by
  rw [parseFeed_play] at h
  generalize Parse.play _ s.tape = x at h
  cases x with
  | error e => cases h
  | ok x =>
      cases h
      exact ⟨x.2, rfl⟩

/-- A source beside itself, which ends in one scope. -/
def Pairing.alone (e : Except LexError Token) (c : Scope) : Pairing where
  left := id
  right := id
  leftEnd := e
  rightEnd := e
  stops c' us := c' = c ∧ us = []
  lenient := False
  ends h := Or.inl ⟨h.2, by
    cases e with
    | error e => exact .fault rfl
    | ok t => exact .eof ⟨rfl, rfl, rfl⟩⟩

/-- **The brackets of an accepted source are all closed at its end.** -/
theorem run_of_parseFeed {r : Reader} {p : Program} (h : parseFeed ⟨r, []⟩ = .ok p) :
    Scope.start.run (r.remaining.1.map (·.kind)) = .start := by
  let P := Pairing.alone r.remaining.2 (Scope.start.run (r.remaining.1.map (·.kind)))
  have hasc := r.remaining_offsets.2
  have hreflows : P.Reflows .start (r.remaining.1 ++ []) (r.remaining.1 ++ []) :=
    .prepend (P := P) rfl (.stop ⟨rfl, rfl⟩) (fun _ _ _ => Iff.rfl) (by simpa using hasc)
      (by simpa using hasc)
  rw [List.append_nil] at hreflows
  obtain ⟨s', hplay⟩ := play_of_parseFeed h
  have hw := Feed.within_tape ⟨r, []⟩ (Nat.lt_succ_self _)
  obtain ⟨_, _, _, _, hstop, -⟩ := Grammar.play_statements_continue (P := P)
    (Grammar.pairs_expression P _ (r.rest.length + 1) maxNesting)
    ⟨rfl, rfl, rfl, rfl, hreflows.ahead true⟩ hw hw hw hw hplay
  exact hstop.1.symm

end RSource
