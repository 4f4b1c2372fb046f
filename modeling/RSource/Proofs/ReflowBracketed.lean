import RSource.Proofs.Reflow

/-!
# Lists in brackets, side by side

The parses of calls, subscripts and parameters come to the same on two tapes side by side, if the
parse of an expression does. In these brackets line feeds are ignored, and the first source does
not end there.

* `Parse.play_suffix`, `Parse.play_length_le` — no parse lengthens its tape.
* `Advances` — what is asked of the parse of an expression alone: it takes a token at least.
* `Pairs` — what is asked of the parses of an expression on both sides.
* `matches_argument`, `matches_slots`, `matches_closing`, `matches_groups`, `matches_formals` and
  the like — one lemma a parse.
-/

namespace RSource

/-! ## Tapes get shorter -/

/-- What a parse leaves is the end of what it finds. -/
theorem Parse.play_suffix {α : Type} {p : Parse α} {s s' : Tape} {a : α}
    (h : p.play s = .ok (a, s')) : s'.tokens <:+ s.tokens := by
  induction p generalizing s with
  | done b => cases h; exact List.suffix_refl _
  | reject expected => exact absurd h play_reject_ne_ok
  | tooDeep => exact absurd h play_tooDeep_ne_ok
  | ahead n k ih =>
      rw [play] at h
      split at h
      · cases h
      · exact ih _ h
  | take k ih =>
      rw [play] at h
      split at h
      · cases h
      · exact (ih _ h).trans s.past_suffix
  | skipLines k ih =>
      rw [play] at h
      split at h
      · cases h
      · exact (ih _ h).trans s.afterLines_suffix
  | beyondLines k ih =>
      rw [play] at h
      split at h
      · cases h
      · exact ih _ h
  | enter l k ih => exact ih () (s := s.enter l) h
  | leave k ih => exact ih () (s := s.leave) h
  | inBrackets k ih => exact ih _ h

/-- No parse lengthens its tape. -/
theorem Parse.play_length_le {α : Type} {p : Parse α} {s s' : Tape} {a : α}
    (h : p.play s = .ok (a, s')) : s'.tokens.length ≤ s.tokens.length :=
  (play_suffix h).length_le

theorem Parse.play_opened {α : Type} (l : Layout) (f : Unit → Parse α) (s : Tape) :
    ((opened l).bind f).play s = (f ()).play (s.enter l) := rfl

theorem Parse.play_closed {α : Type} (f : Unit → Parse α) (s : Tape) :
    (closed.bind f).play s = (f ()).play s.leave := rfl

namespace Tape.Within

variable {s s' : Tape} {t : Token} {n : Nat} {α : Type}

theorem of_play {p : Parse α} {a : α} (h : s.Within n) (hp : p.play s = .ok (a, s')) :
    s'.Within n :=
  Nat.lt_of_le_of_lt (Parse.play_length_le hp) h

theorem not_zero (h : s.Within 0) : False := Nat.not_lt_zero _ h

end Tape.Within

namespace Grammar

open Parse Pairing

/-- What is asked of the parse of an expression alone: it takes a token at least. -/
structure Advances (expr : ExprParse) : Prop where
  starts : ∀ {m : Nat} {s s' : Tape} {e : Expression}, (expr m).play s = .ok (e, s') → s.AtCode
  shorter : ∀ {m : Nat} {s s' : Tape} {e : Expression}, (expr m).play s = .ok (e, s') →
    s'.tokens.length < s.tokens.length

/-- What is asked of the parses of an expression on both sides. -/
structure Pairs (P : Pairing) (expr expr' : ExprParse) (b b' : Nat) : Prop where
  left : Advances expr
  right : Advances expr'
  play : ∀ {m : Nat} {o : List Bracket} {s r : Tape}, P.Stands false o s r → s.Within b →
    r.Within b' →
      P.Matches (P.Same Expression.relocate) (P.Stands false o) ((expr m).play s) ((expr' m).play r)

section Bracketed

variable {P : Pairing} {expr expr' : ExprParse} {b b' : Nat} {s r : Tape} {o : List Bracket}
  {x : Bracket}

theorem isFree_of_layout (hx : x.layout = .free) (h : Bool) :
    Scope.isFree ⟨x :: o, h⟩ = true := by
  simp [Scope.isFree, Scope.layouts, hx]

theorem inside (x : Bracket) (o : List Bracket) : ¬ P.Over ⟨x :: o, false⟩ := not_over (by simp)

/-- Behind a token that opens and closes nothing, line feeds are ignored as before it. -/
theorem stands_past (h : P.Stands false (x :: o) s r) (hx : x.layout = .free) {t : Token}
    (ht : s.front = .ok t) (hk : t.kind ≠ .eof)
    (hstep : Scope.step ⟨x :: o, false⟩ t.kind = ⟨x :: o, false⟩) :
    P.Stands false (x :: o) s.past r.past := by
  have hp := h.past ht hk
  rw [hstep] at hp
  exact hp.settle (isFree_of_layout hx false)

/-- A leaf of the tree opens and closes nothing, and joins nothing. -/
theorem step_leaf {k : TokenKind} (hk : k = .ident ∨ k = .quotedIdent ∨ k = .nextWord ∨
      k = .breakWord ∨ (ConstantKind.ofKind? k).isSome = true) :
    Scope.step ⟨o, false⟩ k = ⟨o, false⟩ ∧ Scope.joins ⟨o, false⟩ k = false ∧ k ≠ .eof := by
  revert hk
  cases k <;> simp [ConstantKind.ofKind?, Scope.step, Scope.joins, Power.ofKind?, UnaryOp.ofKind?]

theorem step_argName {t : Token} {n : ArgName} (hn : ArgName.ofToken? t = some n) :
    Scope.step ⟨o, false⟩ t.kind = ⟨o, false⟩ ∧ t.kind ≠ .eof := by
  have hk : t.kind = .ident ∨ t.kind = .quotedIdent ∨ t.kind = .str ∨ t.kind = .nullWord := by
    unfold ArgName.ofToken? at hn
    split at hn <;> simp_all
  rcases hk with hk | hk | hk | hk <;> rw [hk] <;> exact ⟨rfl, by simp⟩

theorem matches_name (h : P.Stands false (x :: o) s r) (hx : x.layout = .free) :
    P.Matches (P.Same Identifier.relocate) (P.Stands false (x :: o)) (name.play s)
      (name.play r) := by
  rw [name, bind_eq_bind]
  refine h.look_inside (inside x o) fun t u ht hu htu => ?_
  rw [htu.kind]
  split
  · rename_i hk
    obtain ⟨hstep, -, hne⟩ := step_leaf (o := x :: o) (hk.imp_right Or.inl)
    refine h.drop ht hu hne fun _ => ?_
    exact .ok htu.identifier (stands_past h hx ht hne hstep)
  · exact h.reject _

section Slots

variable (hE : Pairs P expr expr' b b') (hx : x.layout = .free)

include hE hx

theorem matches_argument {close : TokenKind} (h : P.Stands false (x :: o) s r) (hs : s.Within b)
    (hr : r.Within b') :
    P.Matches (P.Same Argument.relocate) (P.Stands false (x :: o)) ((argument expr close).play s)
      ((argument expr' close).play r) := by
  have hvalue : P.Matches (P.Same Argument.relocate) (P.Stands false (x :: o))
      (((expr 0).bind fun e => done (.value e)).play s)
      (((expr' 0).bind fun e => done (.value e)).play r) :=
    (hE.play h hs hr).map fun e e' he => congrArg Argument.value he
  rw [argument, argument, bind_eq_bind, bind_eq_bind]
  refine h.look_inside (inside x o) fun t u ht hu htu => ?_
  have hname := htu.argName
  cases hn : ArgName.ofToken? t with
  | none =>
      have hn' : ArgName.ofToken? u = none := by simpa [hn] using hname.symm
      rw [hn']
      exact hvalue
  | some n =>
      obtain ⟨n', hn', hnn⟩ : ∃ n', ArgName.ofToken? u = some n' ∧
          n'.relocate P.right = n.relocate P.left := by simpa [hn] using hname.symm
      obtain ⟨hstep, hk⟩ := step_argName (o := x :: o) hn
      have hp := stands_past h hx ht hk hstep
      rw [hn']
      simp only [bind_eq_bind, pure_eq_done]
      refine hp.lookSecond (inside x o) ht hu htu hk fun v w hv hw hvw => ?_
      rw [hvw.kind]
      split
      · rename_i heq
        refine h.drop ht hu hk fun _ => ?_
        have hv' : v.kind ≠ .eof := by simp [heq]
        refine hp.drop hv hw hv' fun _ => ?_
        have hpp := stands_past hp hx hv hv' (by rw [heq]; rfl)
        refine hpp.look_inside (inside x o) fun y z hy hz hyz => ?_
        rw [hyz.kind]
        split
        · exact .ok (congrArg Argument.name hnn.symm) hpp
        · refine (hE.play hpp hs.past.past hr.past.past).map fun e e' he => ?_
          simp [Same, Argument.relocate, hnn, he]
      · exact hvalue

theorem matches_slot {close : TokenKind} (h : P.Stands false (x :: o) s r) (hs : s.Within b)
    (hr : r.Within b') :
    P.Matches (P.Same Argument.relocate) (P.Stands false (x :: o)) ((slot expr close).play s)
      ((slot expr' close).play r) := by
  rw [slot, slot, bind_eq_bind, bind_eq_bind]
  refine h.look_inside (inside x o) fun t u ht hu htu => ?_
  rw [htu.kind]
  split
  · exact .ok rfl h
  · exact matches_argument hE hx h hs hr

theorem matches_slots {close : TokenKind} {n n' : Nat} (h : P.Stands false (x :: o) s r)
    (hs : s.Within b) (hr : r.Within b') (hn : s.Within n) (hn' : r.Within n') :
    P.Matches (P.Same relocateArguments) (P.Stands false (x :: o)) ((slots expr close n).play s)
      ((slots expr' close n').play r) := by
  induction n generalizing n' s r with
  | zero => exact hn.not_zero.elim
  | succ n ih =>
      obtain ⟨n', rfl⟩ := hn'.exists_succ
      rw [slots, slots]
      refine (matches_slot hE hx h hs hr).bind fun a s₁ a' r₁ hp hp' ha h₁ => ?_
      have hs₁ := hs.of_play hp
      have hr₁ := hr.of_play hp'
      simp only [bind_eq_bind, pure_eq_done]
      refine h₁.look_inside (inside x o) fun t u ht hu htu => ?_
      rw [htu.kind]
      split
      · rename_i hc
        have hk : t.kind ≠ .eof := by simp [hc]
        have hk' : u.kind ≠ .eof := by rwa [htu.kind]
        have h₂ := stands_past h₁ hx ht hk (by rw [hc]; rfl)
        refine h₁.drop ht hu hk fun _ => h₂.look_inside (inside x o) fun v w hv hw hvw => ?_
        rw [hvw.kind]
        split
        · refine .ok ?_ h₂
          simp [Same, relocateArguments, ha, Argument.relocate]
        · refine (ih h₂ hs₁.past hr₁.past ((hn.of_play hp).past_lt ht hk)
            ((hn'.of_play hp').past_lt hu hk')).map fun as as' has => ?_
          simp [Same, relocateArguments, ha, has]
      · split
        · refine .ok ?_ h₁
          simp [Same, relocateArguments, ha]
        · exact h₁.reject _

theorem matches_arguments {close : TokenKind} (h : P.Stands false (x :: o) s r) (hs : s.Within b)
    (hr : r.Within b') :
    P.Matches (P.Same relocateArguments) (P.Stands false (x :: o))
      ((arguments expr close b).play s) ((arguments expr' close b').play r) := by
  rw [arguments, arguments, bind_eq_bind, bind_eq_bind]
  refine h.look_inside (inside x o) fun t u ht hu htu => ?_
  rw [htu.kind]
  split
  · exact .ok rfl h
  · exact matches_slots hE hx h hs hr hs hr

end Slots

/-! ## Brackets behind an operand -/

/-- The bracket that a call or subscript opens. -/
def bracketOf : Brackets → Bracket
  | .call => .paren
  | .index => .index
  | .element => .element

theorem layout_bracketOf (kind : Brackets) : (bracketOf kind).layout = .free := by
  cases kind <;> rfl

theorem step_brackets {k : TokenKind} {kind : Brackets} (hk : Brackets.ofKind? k = some kind) :
    Scope.step ⟨o, false⟩ k = ⟨bracketOf kind :: o, false⟩ ∧ Scope.joins ⟨o, false⟩ k = false ∧
      k ≠ .eof := by
  unfold Brackets.ofKind? at hk
  split at hk <;> cases hk <;> exact ⟨rfl, rfl, by simp⟩

/-- Where line feeds are ignored, the next visible token tells whether a bracket adjoins. -/
theorem adjoins_iff_front {s : Tape} (hs : s.isFree = true) {t v : Token} (hv : s.front = .ok v) :
    Adjoins t s.tokens ↔ v.kind = .rbracket ∧ v.offset = t.offset + 1 := by
  have hshown : s.shown.tokens = dropLineFeeds s.tokens := by rw [Tape.shown_tokens, hs]; rfl
  unfold Adjoins
  cases hd : dropLineFeeds s.tokens with
  | nil =>
      rw [Tape.front, Tape.head_nil (hshown.trans hd)] at hv
      have hk := s.shown.ending_eof v hv
      simp [hk]
  | cons w ws =>
      rw [Tape.front, Tape.head_cons (hshown.trans hd)] at hv
      cases hv
      constructor
      · rintro ⟨u, us, hu, h⟩
        cases hu
        exact h
      · exact fun h => ⟨_, ws, rfl, h⟩

/-- The second closing bracket is adjacent to the first on both tapes or on neither. -/
theorem matches_secondBracket {t u : Token}
    (h : P.At false ⟨.half :: o, false⟩ (.free :: o.map Bracket.layout) s r)
    (hadj : Adjoins t s.tokens ↔ Adjoins u r.tokens) :
    P.Matches (fun _ _ => True) (P.At false ⟨o, false⟩ (.free :: o.map Bracket.layout))
      ((secondBracket t).play s) ((secondBracket u).play r) := by
  rw [secondBracket, secondBracket, bind_eq_bind, bind_eq_bind]
  refine At.look_inside h (inside _ o) fun v w hv hw hvw => ?_
  obtain ⟨hs, hr⟩ := At.isFree h
  rw [adjoins_iff_front hs hv, adjoins_iff_front hr hw] at hadj
  by_cases hc : v.kind = .rbracket ∧ v.offset = t.offset + 1
  · rw [if_pos hc, if_pos (hadj.mp hc)]
    refine At.drop h hv hw (by simp [hc.1]) fun hp => ?_
    rw [hc.1] at hp
    exact .ok trivial hp
  · rw [if_neg hc, if_neg (fun h => hc (hadj.mpr h))]
    exact At.reject h _

theorem matches_closing (kind : Brackets) (h : P.Stands false (bracketOf kind :: o) s r) :
    P.Matches (fun _ _ => True) (P.At false ⟨o, false⟩ (.free :: o.map Bracket.layout))
      ((closing kind).play s) ((closing kind).play r) := by
  rw [closing, bind_eq_bind]
  cases kind with
  | call => exact At.demand h (by simp [Brackets.closing]) fun t u _ _ hp _ => .ok trivial hp
  | index => exact At.demand h (by simp [Brackets.closing]) fun t u _ _ hp _ => .ok trivial hp
  | element =>
      exact At.demand h (by simp [Brackets.closing]) fun t u _ _ hp hc =>
        matches_secondBracket hp (hc rfl)

section Groups

variable (hE : Pairs P expr expr' b b')

include hE

theorem matches_group {t u : Token} {kind : Brackets} (h : P.Stands false o s r)
    (ht : s.front = .ok t) (hu : r.front = .ok u) (hk : Brackets.ofKind? t.kind = some kind)
    (hs : s.Within b) (hr : r.Within b') :
    P.Matches (P.Same Group.relocate) (P.Stands false o) ((group expr b kind).play s)
      ((group expr' b' kind).play r) := by
  obtain ⟨hstep, hjoin, hne⟩ := step_brackets (o := o) hk
  rw [group, group]
  simp only [bind_eq_bind, pure_eq_done]
  refine h.drop ht hu hne fun hp => ?_
  rw [hstep, hjoin] at hp
  have hin : P.Stands false (bracketOf kind :: o) (s.past.enter .free) (r.past.enter .free) := by
    rw [← layout_bracketOf kind]
    exact hp.enter _
  rw [play_opened, play_opened]
  refine hin.look_inside (inside _ o) fun v w hv hw hvw => ?_
  refine (matches_arguments hE (layout_bracketOf kind) hin hs.past hr.past).bind
    fun as s₁ as' r₁ _ _ has h₁ => ?_
  refine (matches_closing kind h₁).bind fun _ s₂ _ r₂ _ _ _ h₂ => ?_
  rw [play_closed, play_closed]
  refine .ok ?_ h₂.leave
  simp [Same, Group.relocate, hvw.loc, has]

omit hE in
/-- A call or subscript takes a token at least. -/
theorem within_group {t : Token} {kind : Brackets} {g : Group} {s' : Tape} {n : Nat}
    (hs : s.Within (n + 1)) (ht : s.front = .ok t) (hk : Brackets.ofKind? t.kind = some kind)
    (h : (group expr b kind).play s = .ok (g, s')) : s'.Within n := by
  obtain ⟨-, -, hne⟩ := step_brackets (o := []) hk
  rw [group, bind_eq_bind, play_drop_bind_ok] at h
  exact (hs.past_lt ht hne).of_play h.2

theorem matches_groups {n n' : Nat} (h : P.Stands false o s r) (hs : s.Within b)
    (hr : r.Within b') (hn : s.Within n) (hn' : r.Within n') :
    P.Matches (P.Same relocateGroups) (P.Stands false o) ((groups expr b n).play s)
      ((groups expr' b' n').play r) := by
  induction n generalizing n' s r with
  | zero => exact hn.not_zero.elim
  | succ n ih =>
      obtain ⟨n', rfl⟩ := hn'.exists_succ
      rw [groups, groups, bind_eq_bind, bind_eq_bind]
      refine h.look (fun t u ht hu htu => ?_) fun t u _ _ hk _ hk' => ?_
      · rw [htu.kind]
        split
        · exact .ok rfl h
        · rename_i kind hk
          refine (matches_group hE h ht hu hk hs hr).bind fun g s₁ g' r₁ hp hp' hg h₁ => ?_
          refine (ih h₁ (hs.of_play hp) (hr.of_play hp') (within_group hn ht hk hp)
            (within_group hn' hu (by rwa [htu.kind]) hp')).map fun gs gs' hgs => ?_
          simp [Same, relocateGroups, hg, hgs]
      · rw [hk, hk']
        exact .ok rfl h

omit hE in
theorem within_groups {t : Token} {gs : List Group} {s' : Tape} {k n : Nat}
    (hs : s.Within (n + 1)) (ht : s.front = .ok t)
    (hk : (Brackets.ofKind? t.kind).isSome = true)
    (h : (groups expr b (k + 1)).play s = .ok (gs, s')) : s'.Within n := by
  rw [groups, bind_eq_bind, play_look_ok] at h
  obtain ⟨u, hu, h⟩ := h
  rw [ht] at hu
  cases hu
  split at h
  · rename_i hnone
    simp [hnone] at hk
  · rename_i kind hkind
    obtain ⟨g, s₁, hg, h⟩ := play_bind_ok.mp h
    exact (within_group hs ht hkind hg).of_play h

end Groups

/-! ## Parameters -/

section Formals

variable (hE : Pairs P expr expr' b b') (hx : x.layout = .free)

include hE hx

theorem matches_formal (h : P.Stands false (x :: o) s r) (hs : s.Within b) (hr : r.Within b') :
    P.Matches (P.Same Formal.relocate) (P.Stands false (x :: o)) ((formal expr).play s)
      ((formal expr').play r) := by
  rw [formal, formal, bind_eq_bind, bind_eq_bind]
  refine (matches_name h hx).bind fun i s₁ i' r₁ hp hp' hi h₁ => ?_
  refine h₁.look_inside (inside x o) fun t u ht hu htu => ?_
  rw [htu.kind]
  split
  · rename_i heq
    have hk : t.kind ≠ .eof := by simp [heq]
    refine h₁.drop ht hu hk fun _ => ?_
    have h₂ := stands_past h₁ hx ht hk (by rw [heq]; rfl)
    refine (hE.play h₂ (hs.of_play hp).past (hr.of_play hp').past).map fun e e' he => ?_
    simp [Same, Formal.relocate, hi, he]
  · exact .ok (congrArg Formal.required hi) h₁

theorem matches_someFormals {n n' : Nat} (h : P.Stands false (x :: o) s r) (hs : s.Within b)
    (hr : r.Within b') (hn : s.Within n) (hn' : r.Within n') :
    P.Matches (P.Same relocateFormals) (P.Stands false (x :: o)) ((someFormals expr n).play s)
      ((someFormals expr' n').play r) := by
  induction n generalizing n' s r with
  | zero => exact hn.not_zero.elim
  | succ n ih =>
      obtain ⟨n', rfl⟩ := hn'.exists_succ
      rw [someFormals, someFormals]
      refine (matches_formal hE hx h hs hr).bind fun p s₁ p' r₁ hp hp' hpp h₁ => ?_
      simp only [bind_eq_bind, pure_eq_done]
      refine h₁.look_inside (inside x o) fun t u ht hu htu => ?_
      rw [htu.kind]
      split
      · rename_i hc
        have hk : t.kind ≠ .eof := by simp [hc]
        have hk' : u.kind ≠ .eof := by rwa [htu.kind]
        have h₂ := stands_past h₁ hx ht hk (by rw [hc]; rfl)
        refine h₁.drop ht hu hk fun _ => ?_
        refine (ih h₂ (hs.of_play hp).past (hr.of_play hp').past ((hn.of_play hp).past_lt ht hk)
          ((hn'.of_play hp').past_lt hu hk')).map fun ps ps' hps => ?_
        simp [Same, relocateFormals, hpp, hps]
      · split
        · refine .ok ?_ h₁
          simp [Same, relocateFormals, hpp]
        · exact h₁.reject _

theorem matches_formals (h : P.Stands false (x :: o) s r) (hs : s.Within b) (hr : r.Within b') :
    P.Matches (P.Same relocateFormals) (P.Stands false (x :: o)) ((formals expr b).play s)
      ((formals expr' b').play r) := by
  rw [formals, formals, bind_eq_bind, bind_eq_bind]
  refine h.look_inside (inside x o) fun t u ht hu htu => ?_
  rw [htu.kind]
  split
  · exact .ok rfl h
  · exact matches_someFormals hE hx h hs hr hs hr

end Formals

end Bracketed

end Grammar

end RSource
