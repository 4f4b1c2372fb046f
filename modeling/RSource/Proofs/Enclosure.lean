import RSource.Proofs.Relocation
import RSource.Proofs.ReplayExpression
import RSource.Proofs.Replies

/-!
# Derivations inside braces

What was derived from a source is derived from it between two braces too, where one more bracket is
open and a line feed with the closing brace stands in place of the end of the input.

* `Enclosure` — where the places of the source go, and what stands behind it.
* `Enclosure.tape` — a tape of the source as it stands between the braces.
* `Tape.Settled` — outside all brackets no `else` stands behind line feeds, so that inside the
  braces none goes on with what ends there.
* `Encloses` — what is asked of the relation of an expression.
* `ReadsArgument.enclose`, `ReadsGroups.enclose`, `ReadsOperand.enclose` and the like — one for each
  relation.
* `encloses_readsExpression` — **an expression is derived between the braces as it is outside
  them**, by induction on the levels of nesting.
-/

namespace RSource

/-- A token at another place, so much further behind. -/
def Token.shifted (f : Location → Location) (d : Nat) (t : Token) : Token :=
  { t with loc := f t.loc, offset := t.offset + d }

/-- How a source stands between braces: its places and offsets move, and in place of its end stands
a line feed in front of the closing brace. -/
structure Enclosure where
  move : Location → Location
  shift : Nat
  line : Token
  brace : Token
  ending : Except LexError Token
  line_kind : line.kind = .newline
  brace_kind : brace.kind = .rbrace
  line_spelled : line.IsSpelled
  brace_spelled : brace.IsSpelled
  ending_eof : ∀ t, ending = .ok t → t.kind = .eof

namespace Enclosure

variable (W : Enclosure)

/-- A token as it stands between the braces. -/
def token (t : Token) : Token := t.shifted W.move W.shift

/-- What stands behind the source. -/
def tail : List Token := [W.line, W.brace]

@[simp] theorem token_kind (t : Token) : (W.token t).kind = t.kind := rfl

theorem token_twin (t : Token) : Twin W.move id t (W.token t) := ⟨rfl, rfl, rfl⟩

theorem token_spelled {t : Token} (h : t.IsSpelled) : (W.token t).IsSpelled :=
  ⟨h.ne_comment, h.ne_eof, h.spells⟩

/-- A tape of the source as it stands between the braces. -/
def tape (s : Tape) : Tape where
  tokens := s.tokens.map W.token ++ W.tail
  ending := W.ending
  layouts := s.layouts ++ [.lined]
  spelled := by
    intro t ht
    rcases List.mem_append.mp ht with ht | ht
    · obtain ⟨u, hu, rfl⟩ := List.mem_map.mp ht
      exact W.token_spelled (s.spelled u hu)
    · simp only [tail, List.mem_cons, List.not_mem_nil, or_false] at ht
      rcases ht with rfl | rfl
      · exact W.line_spelled
      · exact W.brace_spelled
  ending_eof := W.ending_eof

end Enclosure

/-- Outside all brackets no `else` stands behind line feeds. -/
def Tape.Settled (s : Tape) : Prop :=
  s.layouts = [] → ∀ t, s.front = .ok t → t.kind = .newline → ∀ u, s.beyond = .ok u →
    u.kind ≠ .elseWord

theorem Tape.settled_of_front {s : Tape} {t : Token} (ht : s.front = .ok t)
    (hk : t.kind ≠ .newline) : s.Settled := by
  intro _ u hu hn
  rw [ht] at hu
  cases hu
  exact absurd hn hk

theorem Tape.settled_of_clause {s : Tape} {t : Token} (ht : s.clause = .ok t)
    (hk : t.kind = .elseWord) : s.Settled := by
  intro hl u hu hn
  rw [clause, inBrackets, hl] at ht
  rw [hu] at ht
  cases ht
  simp [hk] at hn

theorem Tape.AtCode.settled {s : Tape} (h : s.AtCode) : s.Settled := by
  obtain ⟨t, ht, hl⟩ := h
  exact settled_of_front ht (by rintro hk; simp [hk, TokenKind.isLayout] at hl)

/-! ## The next tokens -/

namespace Enclosure

variable {W : Enclosure} {s s' : Tape} {t : Token} {is : List Item}

@[simp] theorem tape_enter (l : Layout) : W.tape (s.enter l) = (W.tape s).enter l := rfl

theorem tape_leave (h : s.layouts ≠ []) : W.tape s.leave = (W.tape s).leave := by
  refine Tape.ext rfl rfl ?_
  exact (List.tail_append_of_ne_nil h).symm

/-- Brackets that have been entered are left on both sides alike. -/
theorem leave_of_spans {l : Layout} (h : Spans is (s.enter l) s') :
    W.tape s'.leave = (W.tape s').leave :=
  tape_leave (by rw [h.layouts]; exact List.cons_ne_nil _ _)

@[simp] theorem tape_isFree : (W.tape s).isFree = s.isFree := by
  unfold Tape.isFree tape
  cases s.layouts <;> rfl

theorem tape_cons {u : Token} {us : List Token} (h : s.tokens = u :: us) :
    (W.tape s).tokens = W.token u :: (us.map W.token ++ W.tail) := by
  simp [tape, h]

theorem tape_tail {u : Token} {us : List Token} (h : s.tokens = u :: us) :
    W.tape s.tail = (W.tape s).tail := by
  refine Tape.ext ?_ rfl rfl
  simp [tape, h]

/-- Behind line feeds the same token stands, unless the source ends there. -/
theorem tape_afterLines (h : s.afterLines.tokens ≠ []) :
    W.tape s.afterLines = (W.tape s).afterLines := by
  refine Tape.ext ?_ rfl rfl
  have hdrop : (s.tokens.map W.token).dropWhile (·.kind == .newline) =
      (s.tokens.dropWhile (·.kind == .newline)).map W.token := List.dropWhile_map ..
  have hne : ((s.tokens.dropWhile (·.kind == .newline)).map W.token).isEmpty = false := by
    simpa using h
  simp only [tape, Tape.afterLines_tokens]
  rw [List.dropWhile_append, hdrop, hne]
  rfl

theorem tape_shown (h : s.shown.tokens ≠ []) : W.tape s.shown = (W.tape s).shown := by
  unfold Tape.shown at h ⊢
  rw [tape_isFree]
  split
  · rename_i hfree
    rw [if_pos hfree] at h
    exact tape_afterLines h
  · rfl

/-- Where the source has a token, the same one is taken between the braces. -/
theorem front_of_token (ht : s.front = .ok t) (hk : t.kind ≠ .eof) :
    (W.tape s).front = .ok (W.token t) ∧ (W.tape s).past = W.tape s.past := by
  have hshown : ∃ us, s.shown.tokens = t :: us := by
    unfold Tape.front Tape.head at ht
    split at ht
    · rename_i u us hu
      cases ht
      exact ⟨us, hu⟩
    · exact absurd (s.shown.ending_eof t ht) hk
  obtain ⟨us, hus⟩ := hshown
  have hsame := tape_shown (W := W) (s := s) (by rw [hus]; exact List.cons_ne_nil _ _)
  refine ⟨?_, ?_⟩
  · rw [Tape.front, ← hsame]
    exact Tape.head_cons (tape_cons hus)
  · rw [Tape.past, ← hsame, Tape.past, tape_tail hus]

/-- Where nothing but line feeds is left of the source, the closing brace stands behind them. -/
theorem beyond_of_end (h : s.afterLines.tokens = []) : (W.tape s).beyond = .ok W.brace := by
  refine Tape.head_cons (?_ : _ = W.brace :: [])
  have hlines : ∀ u ∈ s.tokens, u.kind = .newline := by
    simpa [Tape.afterLines_tokens, List.dropWhile_eq_nil_iff] using h
  have hall : ∀ u ∈ s.tokens.map W.token, (u.kind == .newline) = true := by
    simpa using hlines
  rw [Tape.afterLines_tokens, tape, List.dropWhile_append_of_pos hall, tail]
  simp [W.line_kind, W.brace_kind]

/-- Where the source ends, a line feed or the closing brace stands between the braces. -/
theorem front_of_end (ht : s.front = .ok t) (hk : t.kind = .eof) :
    ∃ u, (W.tape s).front = .ok u ∧ (u.kind = .newline ∨ u.kind = .rbrace) := by
  have hnil := Tape.tokens_of_end ht hk
  unfold Tape.front Tape.shown at hnil ⊢
  rw [tape_isFree]
  split
  · rename_i hfree
    rw [if_pos hfree] at hnil
    exact ⟨_, beyond_of_end hnil, Or.inr W.brace_kind⟩
  · rename_i hlined
    rw [if_neg hlined] at hnil
    refine ⟨W.line, Tape.head_cons (?_ : _ = W.line :: [W.brace]), Or.inl W.line_kind⟩
    simp [tape, hnil, tail]

/-- The kind of the next token is the same, unless the source ends. -/
theorem front_kind (ht : s.front = .ok t) :
    ∃ u, (W.tape s).front = .ok u ∧
      (u.kind = t.kind ∧ t.kind ≠ .eof ∨ u.kind = .newline ∨ u.kind = .rbrace) := by
  by_cases hk : t.kind = .eof
  · obtain ⟨u, hu, hend⟩ := front_of_end (W := W) ht hk
    exact ⟨u, hu, Or.inr hend⟩
  · exact ⟨_, (front_of_token ht hk).1, Or.inl ⟨rfl, hk⟩⟩

/-- Behind the line feeds the same token stands. -/
theorem beyond_of_token (ht : s.beyond = .ok t) (hk : t.kind ≠ .eof) :
    (W.tape s).beyond = .ok (W.token t) := by
  cases hs : s.afterLines.tokens with
  | nil =>
      rw [Tape.beyond, Tape.head_nil hs] at ht
      exact absurd (s.ending_eof t ht) hk
  | cons u us =>
      rw [Tape.beyond, Tape.head_cons hs] at ht
      cases ht
      rw [Tape.beyond, ← tape_afterLines (by rw [hs]; exact List.cons_ne_nil _ _)]
      exact Tape.head_cons (tape_cons hs)

/-- The kind of the next token that is no line feed is the same, unless the source ends. -/
theorem beyond_kind (ht : s.beyond = .ok t) :
    ∃ u, (W.tape s).beyond = .ok u ∧ (u.kind = t.kind ∨ u.kind = .rbrace) := by
  by_cases hk : t.kind = .eof
  · exact ⟨_, beyond_of_end (Tape.tokens_of_end ht hk), Or.inr W.brace_kind⟩
  · exact ⟨_, beyond_of_token ht hk, Or.inl rfl⟩

/-- A token that is part of an expression is taken between the braces. -/
theorem front_of_code (ht : s.front = .ok t) (hk : t.kind.isLayout = false) :
    (W.tape s).front = .ok (W.token t) ∧ (W.tape s).past = W.tape s.past :=
  front_of_token ht (by rintro he; simp [he, TokenKind.isLayout] at hk)

theorem front_of_atCode (h : s.AtCode) (ht : s.front = .ok t) :
    (W.tape s).front = .ok (W.token t) ∧ (W.tape s).past = W.tape s.past := by
  obtain ⟨u, hu, hl⟩ := h
  rw [ht] at hu
  cases hu
  exact front_of_code ht hl

/-- Behind the line feeds in front of an expression stands the same expression. -/
theorem beyond_of_atCode (h : s.afterLines.AtCode) :
    (∃ u, (W.tape s).beyond = .ok u) ∧ (W.tape s).afterLines = W.tape s.afterLines := by
  have hne := h.tokens_ne_nil
  refine ⟨?_, (tape_afterLines hne).symm⟩
  obtain ⟨u, us, hus⟩ := List.exists_cons_of_ne_nil hne
  obtain ⟨v, hv, -⟩ := beyond_kind (W := W) (Tape.head_cons hus : s.beyond = .ok u)
  exact ⟨v, hv⟩

theorem clause_eq : (W.tape s).clause = (W.tape s).beyond := by
  have hin : (W.tape s).inBrackets = true := by simp [Tape.inBrackets, tape]
  rw [Tape.clause, hin, if_pos rfl]

/-- No `else` goes on between the braces where none goes on outside them. -/
theorem clause_ne_else (hs : s.Settled) (ht : s.clause = .ok t) (hk : t.kind ≠ .elseWord) :
    ∃ u, (W.tape s).clause = .ok u ∧ u.kind ≠ .elseWord := by
  have hof : ∀ v, s.beyond = .ok v → v.kind ≠ .elseWord →
      ∃ u, (W.tape s).clause = .ok u ∧ u.kind ≠ .elseWord := by
    intro v hv hne
    obtain ⟨u, hu, hku⟩ := beyond_kind (W := W) hv
    refine ⟨u, clause_eq.trans hu, ?_⟩
    rcases hku with hku | hku <;> rw [hku]
    · exact hne
    · simp
  cases hl : s.layouts with
  | cons l ls => exact hof t (by rwa [Tape.clause, Tape.inBrackets, hl] at ht) hk
  | nil =>
      have hfront : s.front = .ok t := by rwa [Tape.clause, Tape.inBrackets, hl] at ht
      by_cases hn : t.kind = .newline
      · cases hlines : s.afterLines.tokens with
        | nil => exact ⟨_, clause_eq.trans (beyond_of_end hlines), by simp [W.brace_kind]⟩
        | cons u us =>
            have hu : s.beyond = .ok u := Tape.head_cons hlines
            exact hof u hu (hs hl t hfront hn u hu)
      · have hfree : s.isFree = false := by rw [Tape.isFree, hl]; rfl
        have hhead : s.head = .ok t := by rwa [Tape.front_of_lined hfree] at hfront
        exact hof t (Tape.Faces.beyond ⟨hhead, hn⟩) hk

/-! ## Leaves and operators -/

theorem identifier_token (t : Token) :
    Identifier.ofToken (W.token t) = (Identifier.ofToken t).relocate W.move :=
  ((W.token_twin t).identifier.trans (Identifier.relocate_id _)).symm

theorem constant_token (t : Token) :
    Constant.ofToken? (W.token t) = (Constant.ofToken? t).map (·.relocate W.move) := by
  have h := (W.token_twin t).constant
  simpa using h.symm

theorem argName_token (t : Token) :
    ArgName.ofToken? (W.token t) = (ArgName.ofToken? t).map (·.relocate W.move) := by
  have h := (W.token_twin t).argName
  simpa using h.symm

theorem joined_token {loc : Location} {lhs rhs e : Expression}
    (h : Grammar.joined? loc lhs t rhs = some e) :
    Grammar.joined? (W.move loc) (lhs.relocate W.move) (W.token t) (rhs.relocate W.move) =
      some (e.relocate W.move) := by
  have hsame : (Grammar.joined? loc lhs t rhs).map (·.relocate W.move) =
      (Grammar.joined? (W.move loc) (lhs.relocate W.move) (W.token t)
        (rhs.relocate W.move)).map (·.relocate id) :=
    Grammar.joined_relocate (W.token_twin t) rfl (Expression.relocate_id _).symm
      (Expression.relocate_id _).symm
  simpa [h, Expression.relocate_id] using hsame.symm

end Enclosure

namespace Grammar

open Enclosure

variable {W : Enclosure} {E : ExprReads} {s s' : Tape}

/-- What is asked of the relation of an expression: between the braces it holds as it does outside
them, if no `else` stands behind the line feeds there. -/
structure Encloses (W : Enclosure) (E : ExprReads) : Prop where
  enclose : ∀ {m : Nat} {s s' : Tape} {e : Expression}, E m s e s' → s'.Settled →
    E m (W.tape s) (e.relocate W.move) (W.tape s')

theorem ReadsName.enclose {i : Identifier} (h : ReadsName s i s') :
    ReadsName (W.tape s) (i.relocate W.move) (W.tape s') := by
  cases h with
  | mk ht hk =>
      obtain ⟨hfront, hpast⟩ := front_of_code (W := W) ht (isLayout_of_name hk)
      rw [← hpast, ← identifier_token]
      exact .mk hfront hk

theorem ReadsName.atCode {i : Identifier} (h : ReadsName s i s') : s.AtCode := by
  cases h with
  | mk ht hk => exact ⟨_, ht, isLayout_of_name hk⟩

theorem ReadsSomeFormals.atCode {fs : List Formal} (h : ReadsSomeFormals E s fs s') :
    s.AtCode := by
  cases h with
  | last hf | more hf =>
      cases hf with
      | required hi | defaulted hi => exact hi.atCode

section Bracketed

variable {close : TokenKind} (hC : Covers E) (hE : Encloses W E)

include hC hE

theorem ReadsArgument.enclose {a : Argument} (h : ReadsArgument E close s a s')
    (hend : s'.AtCode) : ReadsArgument E close (W.tape s) (a.relocate W.move) (W.tape s') := by
  cases h with
  | @value s' t e ht hn he =>
      obtain ⟨hfront, hpast⟩ := front_of_atCode (W := W) (hC.atCode he) ht
      refine .value hfront ?_ (hE.enclose he hend.settled)
      rcases hn with hn | ⟨u, hu, hk⟩
      · exact Or.inl (by rw [argName_token, hn]; rfl)
      · obtain ⟨v, hv, hkv⟩ := front_kind (W := W) hu
        rw [← hpast] at hv
        refine Or.inr ⟨v, hv, ?_⟩
        rcases hkv with ⟨hkv, -⟩ | hkv | hkv <;> rw [hkv]
        · exact hk
        · exact TokenKind.noConfusion
        · exact TokenKind.noConfusion
  | @name t u v n ht hn hu hk hv hend' =>
      obtain ⟨hft, hpt⟩ := front_of_code (W := W) ht (isLayout_of_argName hn)
      obtain ⟨hfu, hpu⟩ := front_of_code (W := W) hu (by rw [hk]; rfl)
      obtain ⟨hfv, -⟩ := front_of_atCode (W := W) hend hv
      rw [← hpt] at hfu hpu
      rw [← hpu] at hfv ⊢
      exact .name hft (by rw [argName_token, hn]; rfl) hfu hk hfv hend'
  | @named s' t u v n e ht hn hu hk hv hend' he =>
      obtain ⟨hft, hpt⟩ := front_of_code (W := W) ht (isLayout_of_argName hn)
      obtain ⟨hfu, hpu⟩ := front_of_code (W := W) hu (by rw [hk]; rfl)
      obtain ⟨hfv, -⟩ := front_of_atCode (W := W) (hC.atCode he) hv
      have hvalue := hE.enclose he hend.settled
      rw [← hpt] at hfu hpu
      rw [← hpu] at hfv hvalue
      exact .named hft (by rw [argName_token, hn]; rfl) hfu hk hfv hend' hvalue

theorem ReadsSlot.enclose {a : Argument} (h : ReadsSlot E close s a s') (hend : s'.AtCode) :
    ReadsSlot E close (W.tape s) (a.relocate W.move) (W.tape s') := by
  cases h with
  | empty ht hk => exact .empty (front_of_atCode hend ht).1 hk
  | filled ht hk ha =>
      exact .filled (front_of_atCode (ha.atCode hC) ht).1 hk (ha.enclose hC hE hend)

theorem ReadsSlots.enclose {as : List Argument} (h : ReadsSlots E close s as s')
    (hclose : close.isLayout = false) :
    ReadsSlots E close (W.tape s) (relocateArguments W.move as) (W.tape s') := by
  induction h with
  | last ha hu hc hk =>
      have hcode : Tape.AtCode _ := ⟨_, hu, by rw [hk]; exact hclose⟩
      exact .last (ha.enclose hC hE hcode) (front_of_atCode hcode hu).1 hc hk
  | trailing ha hu hc hv hk =>
      have hcode : Tape.AtCode _ := ⟨_, hu, by rw [hc]; rfl⟩
      obtain ⟨hfu, hpu⟩ := front_of_atCode (W := W) hcode hu
      obtain ⟨hfv, -⟩ := front_of_code (W := W) hv (by rw [hk]; exact hclose)
      rw [← hpu] at hfv ⊢
      exact .trailing (ha.enclose hC hE hcode) hfu hc hfv hk
  | more ha hu hc hv hk hs ih =>
      have hcode : Tape.AtCode _ := ⟨_, hu, by rw [hc]; rfl⟩
      obtain ⟨hfu, hpu⟩ := front_of_atCode (W := W) hcode hu
      obtain ⟨hfv, -⟩ := front_of_atCode (W := W) (hs.atCode hC) hv
      rw [← hpu] at hfv ih
      exact .more (ha.enclose hC hE hcode) hfu hc hfv hk ih

theorem ReadsArguments.enclose {as : List Argument} (h : ReadsArguments E close s as s')
    (hclose : close.isLayout = false) :
    ReadsArguments E close (W.tape s) (relocateArguments W.move as) (W.tape s') := by
  cases h with
  | none ht hk => exact .none (front_of_code ht (by rw [hk]; exact hclose)).1 hk
  | some ht hk hs =>
      exact .some (front_of_atCode (hs.atCode hC) ht).1 hk (hs.enclose hC hE hclose)

omit hC hE in
theorem ReadsClosing.enclose {kind : Brackets} (h : ReadsClosing kind s s') :
    ReadsClosing kind (W.tape s) (W.tape s') := by
  cases h with
  | single ht hk hne =>
      obtain ⟨hfront, hpast⟩ := front_of_code (W := W) ht (by rw [hk]; exact isLayout_closing kind)
      rw [← hpast]
      exact .single hfront hk hne
  | double ht hk hu hj ho =>
      obtain ⟨hft, hpt⟩ := front_of_code (W := W) ht (by rw [hk]; rfl)
      obtain ⟨hfu, hpu⟩ := front_of_code (W := W) hu (by rw [hj]; rfl)
      rw [← hpt] at hfu hpu
      rw [← hpu]
      refine .double hft hk hfu hj ?_
      simp only [token, Token.shifted, ho]
      omega

theorem ReadsGroup.enclose {g : Group} (h : ReadsGroup E s g s') :
    ReadsGroup E (W.tape s) (g.relocate W.move) (W.tape s') := by
  cases h with
  | @mk s₁ s₂ t u kind as ht hk hu ha hc =>
      have hopen : t.kind.isLayout = false := by
        rw [opening_of_brackets hk]
        exact TokenKind.isLayout_of_isWord (isWord_opening kind)
      obtain ⟨hft, hpt⟩ := front_of_code (W := W) ht hopen
      have hclose := isLayout_closing kind
      obtain ⟨hfu, -⟩ := front_of_atCode (W := W) (ha.atCode hC hclose) hu
      have hargs := ha.enclose hC hE hclose
      rw [leave_of_spans ((ha.spans hC).append hc.spans)]
      rw [tape_enter, ← hpt] at hfu hargs
      exact .mk hft hk hfu hargs hc.enclose

theorem ReadsGroups.enclose {gs : List Group} (h : ReadsGroups E s gs s') :
    ReadsGroups E (W.tape s) (relocateGroups W.move gs) (W.tape s') := by
  induction h with
  | stop ht hk =>
      obtain ⟨u, hu, hku⟩ := front_kind (W := W) ht
      refine .stop hu ?_
      rcases hku with ⟨hku, -⟩ | hku | hku <;> rw [hku]
      · exact hk
      · rfl
      · rfl
  | more hg hs ih => exact .more (hg.enclose hC hE) ih

omit hC in
theorem ReadsFormal.enclose {f : Formal} (h : ReadsFormal E s f s') (hend : s'.AtCode) :
    ReadsFormal E (W.tape s) (f.relocate W.move) (W.tape s') := by
  cases h with
  | required hi ht hk => exact .required hi.enclose (front_of_atCode hend ht).1 hk
  | defaulted hi ht hk he =>
      obtain ⟨hft, hpt⟩ := front_of_code (W := W) ht (by rw [hk]; rfl)
      have hvalue := hE.enclose he hend.settled
      rw [← hpt] at hvalue
      exact .defaulted hi.enclose hft hk hvalue

omit hC in
theorem ReadsSomeFormals.enclose {fs : List Formal} (h : ReadsSomeFormals E s fs s') :
    ReadsSomeFormals E (W.tape s) (relocateFormals W.move fs) (W.tape s') := by
  induction h with
  | last hf ht hk =>
      have hcode : Tape.AtCode _ := ⟨_, ht, by rw [hk]; rfl⟩
      exact .last (hf.enclose hE hcode) (front_of_atCode hcode ht).1 hk
  | more hf ht hk hs ih =>
      have hcode : Tape.AtCode _ := ⟨_, ht, by rw [hk]; rfl⟩
      obtain ⟨hft, hpt⟩ := front_of_atCode (W := W) hcode ht
      rw [← hpt] at ih
      exact .more (hf.enclose hE hcode) hft hk ih

omit hC in
theorem ReadsFormals.enclose {fs : List Formal} (h : ReadsFormals E s fs s') :
    ReadsFormals E (W.tape s) (relocateFormals W.move fs) (W.tape s') := by
  cases h with
  | none ht hk => exact .none (front_of_code ht (by rw [hk]; rfl)).1 hk
  | some ht hk hs =>
      exact .some (front_of_atCode hs.atCode ht).1 hk (hs.enclose hE)

end Bracketed

/-! ## Statements and operands -/

section Statement

variable (hC : Covers E) (hR : Replays E) (hE : Encloses W E)

include hR in
/-- Outside all brackets no `else` stands in front of statements. -/
theorem ReadsStatements.settled {close : TokenKind} {es : List Expression}
    (h : ReadsStatements E close s es s') (hc : close ≠ .elseWord) : s.Settled := by
  intro hl t ht hn u hu
  obtain ⟨v, hv, hne⟩ := h.beyond hR hc (by rw [Tape.isFree, hl]; rfl)
  rw [hu] at hv
  cases hv
  exact hne

include hR hE in
/-- Statements between the braces, where others may stand behind those of the source. -/
theorem ReadsStatements.enclose {close : TokenKind} {es : List Expression} {r : Tape}
    (h : ReadsStatements E close s es s') (hc : close = .eof ∨ close = .rbrace)
    (hend : ReadsStatements E .rbrace (W.tape s') [] r) :
    ReadsStatements E .rbrace (W.tape s) (relocateExpressions W.move es) r := by
  have hne : close ≠ .elseWord := by rcases hc with rfl | rfl <;> simp
  induction h with
  | skip ht hk hs ih =>
      obtain ⟨hft, hpt⟩ := front_of_token (W := W) ht (by rintro he; simp [he, separates] at hk)
      have hrest := ih hend
      rw [← hpt] at hrest
      exact .skip hft hk hrest
  | stop => exact hend
  | @more s s₁ s' t u e es ht hsep hnc heof he hu hf hs ih =>
      obtain ⟨v, hv, hstart⟩ := hR.starts he
      rw [ht] at hv
      cases hv
      obtain ⟨hft, -⟩ := front_of_token (W := W) ht heof
      obtain ⟨w, hw, hkw⟩ := front_kind (W := W) hu
      refine .more hft hsep ?_ heof (hE.enclose he (hs.settled hR hne)) hw ?_ (ih hend)
      · rintro hk
        rw [token_kind] at hk
        simp [hk, startsExpression] at hstart
      · rcases hkw with ⟨hkw, hne'⟩ | hkw | hkw <;> rw [hkw]
        · rcases hc with rfl | rfl
          · have : separates u.kind = true ∨ startsExpression u.kind = true := by
              simpa [mayFollow, hne'] using hf
            rcases this with h | h <;> simp [mayFollow, h]
          · exact hf
        · rfl
        · rfl

include hC hE

theorem ReadsParens.enclose {e : Expression} (h : ReadsParens E s e s') :
    ReadsParens E (W.tape s) (e.relocate W.move) (W.tape s') := by
  cases h with
  | mk ht hk he hu hc =>
      obtain ⟨hft, hpt⟩ := front_of_code (W := W) ht (by rw [hk]; rfl)
      have hcode : Tape.AtCode _ := ⟨_, hu, by rw [hc]; rfl⟩
      obtain ⟨hfu, hpu⟩ := front_of_atCode (W := W) hcode hu
      have hinner := hE.enclose he hcode.settled
      rw [leave_of_spans ((hC.spans he).append (Spans.word hu hc rfl)), ← hpu]
      rw [tape_enter, ← hpt] at hinner
      exact .mk hft hk hinner hfu hc

theorem ReadsBehind.enclose {m : Nat} {e : Expression} (h : ReadsBehind E m s e s')
    (hend : s'.Settled) : ReadsBehind E m (W.tape s) (e.relocate W.move) (W.tape s') := by
  cases h with
  | mk ht he =>
      obtain ⟨⟨u, hu⟩, hlines⟩ := beyond_of_atCode (W := W) (hC.atCode he)
      have hinner := hE.enclose he hend
      rw [← hlines] at hinner
      exact .mk hu hinner

include hR in
theorem ReadsOperand.enclose {o : Operand} (h : ReadsOperand E s o s') (hend : s'.Settled) :
    ReadsOperand E (W.tape s) (o.relocate W.move) (W.tape s') := by
  cases h with
  | @constant t c ht hc =>
      obtain ⟨hft, hpt⟩ := front_of_code (W := W) ht (isLayout_of_constant hc)
      rw [← hpt]
      exact .constant hft (by rw [constant_token, hc]; rfl)
  | @identifier t ht hk =>
      have hl : t.kind.isLayout = false := by
        rcases hk with hk | hk | hk | hk <;> rw [hk] <;> rfl
      obtain ⟨hft, hpt⟩ := front_of_code (W := W) ht hl
      rw [← hpt, Operand.relocate, ← identifier_token]
      exact .identifier hft hk
  | paren he => exact .paren (he.enclose hC hE)
  | block ht hk hs hu hc =>
      obtain ⟨hft, hpt⟩ := front_of_code (W := W) ht (by rw [hk]; rfl)
      obtain ⟨hfu, hpu⟩ := front_of_code (W := W) hu (by rw [hc]; rfl)
      have hstop : ReadsStatements E .rbrace (W.tape _) [] _ :=
        .stop hfu hc (by rw [token_kind, hc]; rfl)
      have hstatements := hs.enclose hR hE (Or.inr rfl) hstop
      rw [leave_of_spans ((hs.spans hC).append (Spans.word hu hc rfl)), ← hpu]
      rw [tape_enter, ← hpt] at hstatements
      exact .block hft hk hstatements hfu hc
  | function ht hk hu ho hf hv hc he =>
      obtain ⟨hft, hpt⟩ := front_of_code (W := W) ht (by rw [hk]; rfl)
      obtain ⟨hfu, hpu⟩ := front_of_code (W := W) hu (by rw [ho]; rfl)
      obtain ⟨hfv, hpv⟩ := front_of_code (W := W) hv (by rw [hc]; rfl)
      have hformals := hf.enclose hE
      have hbody := he.enclose hC hE hend
      rw [← hpt] at hfu hpu
      rw [tape_enter, ← hpu] at hformals
      rw [leave_of_spans ((hf.spans hC).append (Spans.word hv hc rfl)), ← hpv] at hbody
      exact .function hft hk hfu ho hformals hfv hc hbody
  | ifThen ht hk hp he hx hne =>
      obtain ⟨hft, hpt⟩ := front_of_code (W := W) ht (by rw [hk]; rfl)
      obtain ⟨y, hy, hney⟩ := clause_ne_else (W := W) hend hx hne
      have hcond := hp.enclose hC hE
      rw [← hpt] at hcond
      exact .ifThen hft hk hcond (he.enclose hC hE hend) hy hney
  | ifElse ht hk hp he hx hj hy hi ho =>
      obtain ⟨hft, hpt⟩ := front_of_code (W := W) ht (by rw [hk]; rfl)
      have hbeyond := Tape.beyond_of_clause hx (by simp [hj])
      have hclause := clause_eq.trans (beyond_of_token (W := W) hbeyond (by simp [hj]))
      have hcode : Tape.AtCode _ := ⟨_, hy, by rw [hi]; rfl⟩
      obtain ⟨-, hlines⟩ := beyond_of_atCode (W := W) hcode
      obtain ⟨hfy, hpy⟩ := front_of_atCode (W := W) hcode hy
      have hcond := hp.enclose hC hE
      have helse := ho.enclose hC hE hend
      have hset : Tape.Settled _ := Tape.settled_of_clause hx hj
      rw [← hpt] at hcond
      rw [← hlines] at hfy hpy
      rw [← hpy] at helse
      exact .ifElse hft hk hcond (he.enclose hC hE hset) hclause hj hfy hi helse
  | forLoop ht hk hu ho hi hv hin hq hw hc he =>
      obtain ⟨hft, hpt⟩ := front_of_code (W := W) ht (by rw [hk]; rfl)
      obtain ⟨hfu, hpu⟩ := front_of_code (W := W) hu (by rw [ho]; rfl)
      obtain ⟨hfv, hpv⟩ := front_of_code (W := W) hv (by rw [hin]; rfl)
      have hcode : Tape.AtCode _ := ⟨_, hw, by rw [hc]; rfl⟩
      obtain ⟨hfw, hpw⟩ := front_of_atCode (W := W) hcode hw
      have hname := hi.enclose (W := W)
      have hseq := hE.enclose hq hcode.settled
      have hbody := he.enclose hC hE hend
      have hspan := (hi.spans.append ((Spans.word hv hin rfl).append
        ((hC.spans hq).append (Spans.word hw hc rfl))))
      rw [← hpt] at hfu hpu
      rw [tape_enter, ← hpu] at hname
      rw [← hpv] at hseq
      rw [leave_of_spans hspan, ← hpw] at hbody
      exact .forLoop hft hk hfu ho hname hfv hin hseq hfw hc hbody
  | whileLoop ht hk hp he =>
      obtain ⟨hft, hpt⟩ := front_of_code (W := W) ht (by rw [hk]; rfl)
      have hcond := hp.enclose hC hE
      rw [← hpt] at hcond
      exact .whileLoop hft hk hcond (he.enclose hC hE hend)
  | repeatLoop ht hk he =>
      obtain ⟨hft, hpt⟩ := front_of_code (W := W) ht (by rw [hk]; rfl)
      have hbody := he.enclose hC hE hend
      rw [← hpt] at hbody
      exact .repeatLoop hft hk hbody

omit hC hE in
theorem ReadsGroups.settled {gs : List Group} (h : ReadsGroups E s gs s') (hend : s'.Settled) :
    s.Settled := by
  cases h with
  | stop => exact hend
  | more hg =>
      cases hg with
      | mk ht hk =>
          refine Tape.settled_of_front ht ?_
          rintro hn
          simp [hn, Brackets.ofKind?] at hk

include hR in
theorem ReadsTerm.enclose {x : Term} (h : ReadsTerm E s x s') (hend : s'.Settled) :
    ReadsTerm E (W.tape s) (x.relocate W.move) (W.tape s') := by
  cases h with
  | mk ho hg =>
      exact .mk (ho.enclose hC hR hE (hg.settled hend)) (hg.enclose hC hE)

/-! ## Operators -/

include hR in
theorem ReadsLeading.enclose {t : Token} {e : Expression} (h : ReadsLeading E t s e s')
    (ht : s.front = .ok t) (hend : s'.Settled) :
    ReadsLeading E (W.token t) (W.tape s) (e.relocate W.move) (W.tape s') := by
  obtain ⟨-, hpt⟩ := front_of_code (W := W) ht (h.atCode ht)
  cases h with
  | unary hop he =>
      have hoperand := he.enclose hC hE hend
      rw [← hpt] at hoperand
      rw [Expression.relocate, Term.relocate_ofExpression]
      exact .unary hop hoperand
  | help hk he =>
      have htarget := he.enclose hC hE hend
      rw [← hpt] at htarget
      exact .help hk htarget
  | term hop hk hx => exact .term hop hk (hx.enclose hC hR hE hend)

include hR in
theorem ReadsRight.enclose {op : TokenKind} {power : Power} {e : Expression}
    (h : ReadsRight E op power s e s') (hend : s'.Settled) :
    ReadsRight E op power (W.tape s) (e.relocate W.move) (W.tape s') := by
  cases h with
  | bare hop ht ho =>
      exact .bare hop (front_of_atCode ho.atCode ht).1 (ho.enclose hC hR hE hend)
  | full hop he => exact .full hop (hE.enclose he hend)

omit hE in
theorem ReadsRight.atCode {op : TokenKind} {power : Power} {e : Expression}
    (h : ReadsRight E op power s e s') : s.AtCode := by
  cases h with
  | bare hop ht ho => exact ho.atCode
  | full hop he => exact hC.atCode he

omit hC hE in
theorem ReadsOperations.settled {m : Nat} {loc : Location} {lhs e : Expression}
    (h : ReadsOperations E m loc lhs s e s') (hend : s'.Settled) : s.Settled := by
  cases h with
  | stop => exact hend
  | groups ht hb =>
      refine Tape.settled_of_front ht ?_
      rintro hn
      simp [hn, Brackets.ofKind?] at hb
  | operator ht hb hp =>
      refine Tape.settled_of_front ht ?_
      rintro hn
      simp [hn, Power.ofKind?] at hp

include hR in
theorem ReadsOperations.enclose {m : Nat} {loc : Location} {lhs e : Expression}
    (h : ReadsOperations E m loc lhs s e s') (hend : s'.Settled) :
    ReadsOperations E m (W.move loc) (lhs.relocate W.move) (W.tape s) (e.relocate W.move)
      (W.tape s') := by
  induction h with
  | stop ht hb hp =>
      obtain ⟨u, hu, hku⟩ := front_kind (W := W) ht
      rcases hku with ⟨hku, -⟩ | hku | hku
      · exact .stop hu (by rwa [hku]) (by rwa [hku])
      · exact .stop hu (by rw [hku]; rfl) (by simp [hku, Power.ofKind?])
      · exact .stop hu (by rw [hku]; rfl) (by simp [hku, Power.ofKind?])
  | @groups _ _ _ t _ _ _ ht hb hg ho ih =>
      have hne : t.kind ≠ .eof := by rintro he; simp [he, Brackets.ofKind?] at hb
      exact .groups (front_of_token ht hne).1 hb (hg.enclose hC hE) (ih hend)
  | operator ht hb hp hm hl hr hj ho ih =>
      obtain ⟨hft, hpt⟩ := front_of_code (W := W) ht (isLayout_of_power hp)
      obtain ⟨⟨u, hu⟩, hlines⟩ := beyond_of_atCode (W := W) (hr.atCode hC)
      have hright := hr.enclose hC hR hE (ho.settled hend)
      rw [← hpt] at hu hlines
      rw [← hlines] at hright
      exact .operator hft hb hp hm hu hright (joined_token hj) (ih hend)

include hR in
theorem ReadsLevel.enclose {m : Nat} {e : Expression} (h : ReadsLevel E m s e s')
    (hend : s'.Settled) : ReadsLevel E m (W.tape s) (e.relocate W.move) (W.tape s') := by
  cases h with
  | mk ht hl ho =>
      exact .mk (front_of_code ht (hl.atCode ht)).1
        (hl.enclose hC hR hE ht (ho.settled hend)) (ho.enclose hC hR hE hend)

end Statement

/-- **An expression is derived between the braces as it is outside them**, if no `else` stands
behind the line feeds there. -/
theorem encloses_readsExpression (W : Enclosure) (levels : Nat) :
    Encloses W (ReadsExpression levels) := by
  induction levels with
  | zero => exact ⟨fun h => h.elim⟩
  | succ levels ih =>
      exact ⟨fun h => ReadsLevel.enclose (covers_readsExpression levels)
        (replays_readsExpression levels) ih h⟩

end Grammar

end RSource
