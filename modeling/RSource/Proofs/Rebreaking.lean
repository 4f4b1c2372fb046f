import RSource.Proofs.ReflowStatement
import RSource.Proofs.ReplayExpression

/-!
# Line feeds in front of an `else`

In brackets an `else` goes on with its condition from any line below. Outside all brackets none
stands behind a line feed.

* `Rebroken` — tokens that are the same but for the line feeds in front of an `else` in brackets, up
  to one that stands behind a line feed outside them.
* `Aligned` — two tapes with such tokens.
* `Aligned.fronts`, `Aligned.take`, `Aligned.clause` — what their next tokens are.
* `Rebreaks` — what is asked of the relation of an expression.
* `ReadsArgument.rebreak`, `ReadsGroups.rebreak`, `ReadsFormals.rebreak` and the like — one for each
  relation of a list in brackets.
-/

namespace RSource

/-! ## Tokens with other line feeds -/

/-- Tokens that are the same but for the line feeds in front of an `else` in brackets. One that
stands behind line feeds outside all brackets is a wall, behind which nothing is asked; `ends` says
whether the tokens may end without one. -/
inductive Rebroken (ends : Prop) : Scope → List Token → List Token → Prop where
  | nil {c : Scope} (h : ends) : Rebroken ends c [] []
  | step {c : Scope} {t : Token} {ts us : List Token} (h : Rebroken ends (c.step t.kind) ts us) :
      Rebroken ends c (t :: ts) (t :: us)
  | clause {c : Scope} {t : Token} {lines lines' ts us : List Token} (ho : c.opened ≠ [])
      (hl : ∀ l ∈ lines, l.kind = .newline) (hl' : ∀ l ∈ lines', l.kind = .newline)
      (hk : t.kind = .elseWord) (h : Rebroken ends (c.step t.kind) ts us) :
      Rebroken ends c (lines ++ t :: ts) (lines' ++ t :: us)
  | wall {c : Scope} {t : Token} {lines ts : List Token} (ho : c.opened = [])
      (hl : ∀ l ∈ lines, l.kind = .newline) (hne : lines ≠ []) (hk : t.kind = .elseWord) :
      Rebroken ends c (lines ++ t :: ts) (lines ++ t :: ts)

theorem dropLineFeeds_cons {t : Token} (hk : t.kind ≠ .newline) (ts : List Token) :
    dropLineFeeds (t :: ts) = t :: ts := by
  simp [dropLineFeeds, hk]

/-- Behind the line feeds the same token stands, and the tokens go on alike unless it is an `else`
outside all brackets. -/
theorem Rebroken.afterLines {ends : Prop} {c : Scope} {ts us : List Token}
    (h : Rebroken ends c ts us) :
    (dropLineFeeds ts = [] ∧ dropLineFeeds us = []) ∨
      ∃ t vs ws, dropLineFeeds ts = t :: vs ∧ dropLineFeeds us = t :: ws ∧ t.kind ≠ .newline ∧
        (Rebroken ends (c.step t.kind) vs ws ∨ c.opened = [] ∧ t.kind = .elseWord) := by
  induction h with
  | nil => exact Or.inl ⟨rfl, rfl⟩
  | @step c t ts us h ih =>
      by_cases hn : t.kind = .newline
      · rw [hn, Scope.step_newline] at ih
        have hdrop : ∀ vs, dropLineFeeds (t :: vs) = dropLineFeeds vs := by
          intro vs
          simp [dropLineFeeds, hn]
        rwa [hdrop, hdrop]
      · exact Or.inr ⟨t, ts, us, dropLineFeeds_cons hn ts, dropLineFeeds_cons hn us, hn, Or.inl h⟩
  | @clause c t lines lines' ts us _ hl hl' hk h =>
      have hn : t.kind ≠ .newline := by simp [hk]
      rw [Pairing.dropLineFeeds_append hl, Pairing.dropLineFeeds_append hl',
        dropLineFeeds_cons hn, dropLineFeeds_cons hn]
      exact Or.inr ⟨t, ts, us, rfl, rfl, hn, Or.inl h⟩
  | @wall c t lines ts ho hl _ hk =>
      have hn : t.kind ≠ .newline := by simp [hk]
      rw [Pairing.dropLineFeeds_append hl, dropLineFeeds_cons hn]
      exact Or.inr ⟨t, ts, ts, rfl, rfl, hn, Or.inr ⟨ho, hk⟩⟩

/-! ## Two tapes -/

/-- Two tapes in a scope, with the layouts of the brackets that have been entered. -/
structure Aligned (ends : Prop) (c : Scope) (ls : List Layout) (s r : Tape) : Prop where
  layouts : s.layouts = ls
  layouts' : r.layouts = ls
  ending : r.ending = s.ending
  tokens : Rebroken ends c s.tokens r.tokens

/-- Two tapes between two parts of an expression. -/
abbrev Abreast (ends : Prop) (o : List Bracket) (s r : Tape) : Prop :=
  Aligned ends ⟨o, false⟩ (o.map Bracket.layout) s r

namespace Aligned

variable {ends : Prop} {c : Scope} {ls : List Layout} {s r : Tape} {t : Token}

/-- The next tokens, the first of which is `t`: both tapes have the same one and go on alike, or on
both an `else` stands behind line feeds, or on one of them without any. -/
inductive Fronts (ends : Prop) (c : Scope) (s r : Tape) (t : Token) : Prop where
  | same (hr : r.front = .ok t)
      (h : t.kind ≠ .eof → Aligned ends (c.step t.kind) c.layouts s.past r.past) :
      Fronts ends c s r t
  | apart {u x : Token} (hr : r.front = .ok u) (hx : s.beyond = .ok x) (hy : r.beyond = .ok x)
      (hk : x.kind = .elseWord) (ht : t.kind = .newline ∨ t.kind = .elseWord)
      (hu : u.kind = .newline ∨ u.kind = .elseWord) (hf : c.isFree = false)
      (hn : c.opened = [] → t.kind = .newline ∧ u.kind = .newline) : Fronts ends c s r t

theorem enter (h : Aligned ends c ls s r) (l : Layout) :
    Aligned ends c (l :: ls) (s.enter l) (r.enter l) :=
  ⟨congrArg (l :: ·) h.layouts, congrArg (l :: ·) h.layouts', h.ending, h.tokens⟩

theorem leave (h : Aligned ends c ls s r) : Aligned ends c ls.tail s.leave r.leave :=
  ⟨congrArg List.tail h.layouts, congrArg List.tail h.layouts', h.ending, h.tokens⟩

theorem isFree (h : Aligned ends c c.layouts s r) : s.isFree = c.isFree ∧ r.isFree = c.isFree := by
  rw [Tape.isFree, Tape.isFree, h.layouts, h.layouts']
  exact ⟨rfl, rfl⟩

theorem opened_of_isFree (hf : c.isFree = true) : c.opened ≠ [] := by
  intro ho
  rw [Scope.isFree, Scope.layouts, ho] at hf
  cases hf

theorem fronts_of_nil (h : Aligned ends c c.layouts s r) (hs : s.shown.tokens = [])
    (hr : r.shown.tokens = []) (ht : s.front = .ok t) : Fronts ends c s r t := by
  rw [Tape.front, Tape.head_nil hs, Tape.shown_ending] at ht
  refine .same ?_ fun hk => absurd (s.ending_eof t ht) hk
  rw [Tape.front, Tape.head_nil hr, Tape.shown_ending, h.ending, ht]

theorem fronts_of_cons {u : Token} {vs ws : List Token} (h : Aligned ends c c.layouts s r)
    (hs : s.shown.tokens = u :: vs) (hr : r.shown.tokens = u :: ws)
    (hrest : Rebroken ends (c.step u.kind) vs ws) (ht : s.front = .ok t) :
    Fronts ends c s r t := by
  rw [Tape.front, Tape.head_cons hs] at ht
  cases ht
  refine .same (Tape.head_cons hr) fun _ => ⟨?_, ?_, ?_, ?_⟩
  · rw [Tape.past_layouts, h.layouts]
  · rw [Tape.past_layouts, h.layouts']
  · rw [Tape.past_ending, Tape.past_ending, h.ending]
  · rw [Tape.past_tokens, Tape.past_tokens, hs, hr]
    exact hrest

/-- Where line feeds are visible, an `else` is the next token or stands behind those that are. -/
theorem front_of_lines {lines ts : List Token} {x : Token} (hf : s.isFree = false)
    (hs : s.tokens = lines ++ x :: ts) (hl : ∀ l ∈ lines, l.kind = .newline)
    (hk : x.kind = .elseWord) :
    ∃ u, s.front = .ok u ∧ s.beyond = .ok x ∧
      (lines ≠ [] ∧ u.kind = .newline ∨ u.kind = .elseWord) := by
  have hbeyond : s.afterLines.tokens = x :: ts := by
    rw [Tape.afterLines_tokens, hs]
    exact (Pairing.dropLineFeeds_append hl _).trans (dropLineFeeds_cons (by simp [hk]) ts)
  rw [Tape.front_of_lined hf]
  cases lines with
  | nil => exact ⟨x, Tape.head_cons hs, Tape.head_cons hbeyond, Or.inr hk⟩
  | cons l lines =>
      exact ⟨l, Tape.head_cons hs, Tape.head_cons hbeyond,
        Or.inl ⟨List.cons_ne_nil _ _, hl l List.mem_cons_self⟩⟩

/-- **What the next tokens of two such tapes are.** -/
theorem fronts (h : Aligned ends c c.layouts s r) (ht : s.front = .ok t) : Fronts ends c s r t := by
  obtain ⟨hs, hr⟩ := h.isFree
  cases hf : c.isFree with
  | true =>
      have hshown : ∀ {q : Tape}, q.isFree = c.isFree →
          q.shown.tokens = dropLineFeeds q.tokens := by
        intro q hq
        rw [Tape.shown_tokens, if_pos (hq.trans hf)]
      rcases h.tokens.afterLines with ⟨hnil, hnil'⟩ | ⟨u, vs, ws, hcons, hcons', -, hrest⟩
      · exact h.fronts_of_nil ((hshown hs).trans hnil) ((hshown hr).trans hnil') ht
      · have hrest := hrest.resolve_right fun ho => opened_of_isFree hf ho.1
        exact h.fronts_of_cons ((hshown hs).trans hcons) ((hshown hr).trans hcons') hrest ht
  | false =>
      rw [hf] at hs hr
      have hshown := Tape.shown_of_lined hs
      have hshown' := Tape.shown_of_lined hr
      have htokens := h.tokens
      generalize hts : s.tokens = ts at htokens
      generalize hus : r.tokens = us at htokens
      rw [← hshown] at hts
      rw [← hshown'] at hus
      cases htokens with
      | nil => exact h.fronts_of_nil hts hus ht
      | step hrest => exact h.fronts_of_cons hts hus hrest ht
      | clause ho hl hl' hk hrest =>
          rw [hshown] at hts
          rw [hshown'] at hus
          obtain ⟨u, hu, hx, hku⟩ := front_of_lines hs hts hl hk
          obtain ⟨v, hv, hy, hkv⟩ := front_of_lines hr hus hl' hk
          rw [ht] at hu
          cases hu
          exact .apart hv hx hy hk (hku.imp_left And.right) (hkv.imp_left And.right) hf
            fun hnil => absurd hnil ho
      | @wall _ x lines vs ho hl hne hk =>
          rw [hshown] at hts
          rw [hshown'] at hus
          cases lines with
          | nil => exact absurd rfl hne
          | cons l lines =>
              have hn := hl l List.mem_cons_self
              obtain ⟨u, -, hx, -⟩ := front_of_lines hs hts hl hk
              obtain ⟨v, -, hy, -⟩ := front_of_lines hr hus hl hk
              have hfront : s.front = .ok l := by
                rw [Tape.front_of_lined hs]
                exact Tape.head_cons hts
              have hfront' : r.front = .ok l := by
                rw [Tape.front_of_lined hr]
                exact Tape.head_cons hus
              rw [ht] at hfront
              cases hfront
              exact .apart hfront' hx hy hk (Or.inl hn) (Or.inl hn) hf fun _ => ⟨hn, hn⟩

/-- A token that is no line feed and no `else` is taken from both tapes. -/
theorem take (h : Aligned ends c c.layouts s r) (ht : s.front = .ok t) (he : t.kind ≠ .eof)
    (hn : t.kind ≠ .newline) (hk : t.kind ≠ .elseWord) :
    r.front = .ok t ∧ Aligned ends (c.step t.kind) c.layouts s.past r.past := by
  cases h.fronts ht with
  | same hr hrest => exact ⟨hr, hrest he⟩
  | apart _ _ _ _ hkt => exact (hkt.elim hn hk).elim

/-- Where line feeds are ignored, the next tokens are the same. -/
theorem front_of_isFree (h : Aligned ends c c.layouts s r) (hf : c.isFree = true)
    (ht : s.front = .ok t) : r.front = .ok t := by
  cases h.fronts ht with
  | same hr => exact hr
  | apart _ _ _ _ _ _ hf' =>
      rw [hf] at hf'
      cases hf'

/-- The next tokens are the same, or an expression goes on with neither of them. -/
theorem quiet (h : Aligned ends c c.layouts s r) (ht : s.front = .ok t) :
    ∃ u, r.front = .ok u ∧ (u = t ∨ Grammar.IsQuiet t.kind ∧ Grammar.IsQuiet u.kind) := by
  have hquiet : ∀ {k : TokenKind}, k = .newline ∨ k = .elseWord → Grammar.IsQuiet k := by
    rintro k (rfl | rfl) <;> exact ⟨rfl, rfl⟩
  cases h.fronts ht with
  | same hr => exact ⟨t, hr, Or.inl rfl⟩
  | apart hr _ _ _ hkt hku => exact ⟨_, hr, Or.inr ⟨hquiet hkt, hquiet hku⟩⟩

/-- On both tapes an `else` goes on with the form just read, or on none. -/
theorem clause (h : Aligned ends c c.layouts s r) {x : Token} (hx : s.clause = .ok x) :
    ∃ y, r.clause = .ok y ∧ (y.kind = .elseWord ↔ x.kind = .elseWord) := by
  have hin : r.inBrackets = s.inBrackets := by
    rw [Tape.inBrackets, Tape.inBrackets, h.layouts, h.layouts']
  unfold Tape.clause at hx ⊢
  rw [hin]
  split at hx
  · rename_i hbrackets
    rw [if_pos hbrackets]
    rcases h.tokens.afterLines with ⟨hnil, hnil'⟩ | ⟨t, vs, ws, hcons, hcons', -, -⟩
    · rw [Tape.beyond, Tape.head_nil (s := s.afterLines) hnil, Tape.afterLines_ending] at hx
      refine ⟨x, ?_, Iff.rfl⟩
      rw [Tape.beyond, Tape.head_nil (s := r.afterLines) hnil', Tape.afterLines_ending, h.ending,
        hx]
    · rw [Tape.beyond, Tape.head_cons (s := s.afterLines) hcons] at hx
      cases hx
      exact ⟨x, Tape.head_cons (s := r.afterLines) hcons', Iff.rfl⟩
  · rename_i hbrackets
    rw [if_neg hbrackets]
    cases h.fronts hx with
    | same hr => exact ⟨x, hr, Iff.rfl⟩
    | apart hr _ _ _ _ _ _ hn =>
        -- No bracket is open, so line feeds stand on both tapes.
        have ho : c.opened = [] := by
          rw [Tape.inBrackets, h.layouts, Scope.layouts] at hbrackets
          simpa using hbrackets
        obtain ⟨hkx, hky⟩ := hn ho
        exact ⟨_, hr, iff_of_false (by simp [hky]) (by simp [hkx])⟩

/-- Behind line feeds both tapes go on alike, unless nothing or an `else` stands there. -/
theorem afterLines (h : Aligned ends c ls s r) (ht : s.afterLines.front = .ok t)
    (he : t.kind ≠ .eof) (hk : t.kind ≠ .elseWord) :
    r.beyond = .ok t ∧ Aligned ends c ls s.afterLines r.afterLines := by
  rcases h.tokens.afterLines with ⟨hnil, -⟩ | ⟨u, vs, ws, hcons, hcons', hn, hrest⟩
  · have hface : s.afterLines.front = s.ending := by
      have hshown : s.afterLines.shown.tokens = [] :=
        List.suffix_nil.mp (hnil ▸ s.afterLines.shown_suffix)
      rw [Tape.front, Tape.head_nil hshown, Tape.shown_ending, Tape.afterLines_ending]
    exact absurd (s.ending_eof t (hface ▸ ht)) he
  · have hface : s.afterLines.Faces u := Tape.faces_of_cons hcons hn
    rw [hface.front] at ht
    cases ht
    have hdrop : Rebroken ends c (dropLineFeeds s.tokens) (dropLineFeeds r.tokens) := by
      rw [hcons, hcons']
      exact .step (hrest.resolve_right fun ho => hk ho.2)
    exact ⟨Tape.head_cons (s := r.afterLines) hcons', h.layouts, h.layouts', h.ending, hdrop⟩

/-- An `else` that goes on with the form just read is taken from both tapes, with the line feeds in
front of it. -/
theorem otherwise (h : Aligned ends c c.layouts s r) {x : Token} (hx : s.clause = .ok x)
    (hj : x.kind = .elseWord) (ht : s.afterLines.front = .ok t) (hk : t.kind = .elseWord) :
    r.afterLines.front = .ok t ∧
      Aligned ends (c.step t.kind) c.layouts s.afterLines.past r.afterLines.past := by
  by_cases ho : c.opened = []
  · -- Outside all brackets no line feeds stand in front of it.
    have hs : s.layouts = [] := by rw [h.layouts, Scope.layouts, ho]; rfl
    have hr : r.layouts = [] := by rw [h.layouts', Scope.layouts, ho]; rfl
    have hfront : s.front = .ok x := by rwa [Tape.clause, Tape.inBrackets, hs] at hx
    have hlines : ∀ {q : Tape}, q.layouts = [] → q.front = .ok x → q.afterLines = q := by
      intro q hq hfront
      rw [Tape.front_of_lined (by rw [Tape.isFree, hq]; rfl)] at hfront
      exact Tape.Faces.afterLines ⟨hfront, by simp [hj]⟩
    rw [hlines hs hfront, hfront] at ht
    cases ht
    cases h.fronts hfront with
    | same hr' hrest =>
        rw [hlines hs hfront, hlines hr hr']
        exact ⟨hr', hrest (by simp [hj])⟩
    | apart _ _ _ _ _ _ _ hn => exact absurd (hn ho).1 (by simp [hj])
  · rcases h.tokens.afterLines with ⟨hnil, -⟩ | ⟨u, vs, ws, hcons, hcons', hn, hrest⟩
    · have hcode : s.afterLines.AtCode := ⟨t, ht, by rw [hk]; rfl⟩
      exact absurd hnil hcode.tokens_ne_nil
    · have hface : s.afterLines.Faces u := Tape.faces_of_cons hcons hn
      have hface' : r.afterLines.Faces u := Tape.faces_of_cons hcons' hn
      rw [hface.front] at ht
      cases ht
      refine ⟨hface'.front, ?_⟩
      rw [hface.past, hface'.past]
      refine ⟨h.layouts, h.layouts', h.ending, ?_⟩
      have hvs : s.afterLines.tail.tokens = vs := congrArg List.tail hcons
      have hws : r.afterLines.tail.tokens = ws := congrArg List.tail hcons'
      rw [hvs, hws]
      exact hrest.resolve_right fun ho' => ho ho'.1

end Aligned

/-! ## Lists in brackets -/

namespace Grammar

variable {ends : Prop} {E : ExprReads} {s s' r : Tape} {o : List Bracket} {x : Bracket}
  {close : TokenKind} {t : Token}

/-- What is asked of the relation of an expression: it is read again where other line feeds stand
in front of an `else`. -/
def Rebreaks (ends : Prop) (E : ExprReads) : Prop :=
  ∀ ⦃m : Nat⦄ ⦃o : List Bracket⦄ ⦃s s' r : Tape⦄ ⦃e : Expression⦄, E m s e s' →
    Abreast ends o s r → ∃ r', E m r e r' ∧ Abreast ends o s' r'

/-- A token that is part of an expression, no `else`, and opens and closes nothing. -/
theorem rebreak_token (h : Abreast ends o s r) (ht : s.front = .ok t)
    (hk : t.kind.isLayout = false) (hne : t.kind ≠ .elseWord)
    (hstep : Scope.step ⟨o, false⟩ t.kind = ⟨o, false⟩) :
    r.front = .ok t ∧ Abreast ends o s.past r.past := by
  have hlayout : ∀ {k : TokenKind}, k.isLayout = true → t.kind ≠ k := by
    rintro k hl rfl
    rw [hk] at hl
    cases hl
  obtain ⟨hr, hpast⟩ := h.take ht (hlayout rfl) (hlayout rfl) hne
  rw [hstep] at hpast
  exact ⟨hr, hpast⟩

theorem rebreak_name {n : ArgName} (h : Abreast ends o s r) (ht : s.front = .ok t)
    (hn : ArgName.ofToken? t = some n) : r.front = .ok t ∧ Abreast ends o s.past r.past := by
  refine rebreak_token h ht (isLayout_of_argName hn) ?_ (step_argName hn).1
  intro hk
  simp [ArgName.ofToken?, hk] at hn

theorem ReadsName.rebreak {i : Identifier} (h : ReadsName s i s') (hb : Abreast ends o s r) :
    ∃ r', ReadsName r i r' ∧ Abreast ends o s' r' := by
  cases h with
  | @mk t ht hk =>
      have hne : t.kind ≠ .elseWord := by rcases hk with hk | hk <;> simp [hk]
      obtain ⟨hr, hpast⟩ := rebreak_token hb ht (isLayout_of_name hk) hne
        (step_leaf (hk.imp_right Or.inl)).1
      exact ⟨_, .mk hr hk, hpast⟩

section Bracketed

variable (hE : Rebreaks ends E)

include hE

theorem ReadsArgument.rebreak {a : Argument} (h : ReadsArgument E close s a s')
    (hx : x.layout = .free) (hb : Abreast ends (x :: o) s r) :
    ∃ r', ReadsArgument E close r a r' ∧ Abreast ends (x :: o) s' r' := by
  have hfree := isFree_of_layout (o := o) hx false
  cases h with
  | @value _ t _ ht hn he =>
      obtain ⟨r', he', hb'⟩ := hE he hb
      refine ⟨r', .value (hb.front_of_isFree hfree ht) ?_ he', hb'⟩
      cases hname : ArgName.ofToken? t with
      | none => exact Or.inl rfl
      | some n =>
          rcases hn with hn | ⟨u, hu, hk⟩
          · rw [hname] at hn
            cases hn
          · exact Or.inr ⟨u, (rebreak_name hb ht hname).2.front_of_isFree hfree hu, hk⟩
  | name ht hn hu hk hv hend =>
      obtain ⟨hr, hpast⟩ := rebreak_name hb ht hn
      obtain ⟨hr', hpast'⟩ := rebreak_token hpast hu (by rw [hk]; rfl) (by simp [hk])
        (by rw [hk]; rfl)
      exact ⟨_, .name hr hn hr' hk (hpast'.front_of_isFree hfree hv) hend, hpast'⟩
  | named ht hn hu hk hv hend he =>
      obtain ⟨hr, hpast⟩ := rebreak_name hb ht hn
      obtain ⟨hr', hpast'⟩ := rebreak_token hpast hu (by rw [hk]; rfl) (by simp [hk])
        (by rw [hk]; rfl)
      obtain ⟨r', he', hb'⟩ := hE he hpast'
      exact ⟨r', .named hr hn hr' hk (hpast'.front_of_isFree hfree hv) hend he', hb'⟩

theorem ReadsSlot.rebreak {a : Argument} (h : ReadsSlot E close s a s') (hx : x.layout = .free)
    (hb : Abreast ends (x :: o) s r) :
    ∃ r', ReadsSlot E close r a r' ∧ Abreast ends (x :: o) s' r' := by
  have hfree := isFree_of_layout (o := o) hx false
  cases h with
  | empty ht hk => exact ⟨r, .empty (hb.front_of_isFree hfree ht) hk, hb⟩
  | filled ht hk ha =>
      obtain ⟨r', ha', hb'⟩ := ha.rebreak hE hx hb
      exact ⟨r', .filled (hb.front_of_isFree hfree ht) hk ha', hb'⟩

theorem ReadsSlots.rebreak {as : List Argument} (h : ReadsSlots E close s as s')
    (hx : x.layout = .free) (hb : Abreast ends (x :: o) s r) :
    ∃ r', ReadsSlots E close r as r' ∧ Abreast ends (x :: o) s' r' := by
  have hfree := isFree_of_layout (o := o) hx false
  induction h generalizing r with
  | last ha hu hc hk =>
      obtain ⟨r', ha', hb'⟩ := ha.rebreak hE hx hb
      exact ⟨r', .last ha' (hb'.front_of_isFree hfree hu) hc hk, hb'⟩
  | trailing ha hu hc hv hk =>
      obtain ⟨r₁, ha', hb₁⟩ := ha.rebreak hE hx hb
      obtain ⟨hr, hpast⟩ := rebreak_token hb₁ hu (by rw [hc]; rfl) (by simp [hc]) (by rw [hc]; rfl)
      exact ⟨_, .trailing ha' hr hc (hpast.front_of_isFree hfree hv) hk, hpast⟩
  | more ha hu hc hv hk _ ih =>
      obtain ⟨r₁, ha', hb₁⟩ := ha.rebreak hE hx hb
      obtain ⟨hr, hpast⟩ := rebreak_token hb₁ hu (by rw [hc]; rfl) (by simp [hc]) (by rw [hc]; rfl)
      obtain ⟨r', hs', hb'⟩ := ih hpast
      exact ⟨r', .more ha' hr hc (hpast.front_of_isFree hfree hv) hk hs', hb'⟩

theorem ReadsArguments.rebreak {as : List Argument} (h : ReadsArguments E close s as s')
    (hx : x.layout = .free) (hb : Abreast ends (x :: o) s r) :
    ∃ r', ReadsArguments E close r as r' ∧ Abreast ends (x :: o) s' r' := by
  have hfree := isFree_of_layout (o := o) hx false
  cases h with
  | none ht hk => exact ⟨r, .none (hb.front_of_isFree hfree ht) hk, hb⟩
  | some ht hk hs =>
      obtain ⟨r', hs', hb'⟩ := hs.rebreak hE hx hb
      exact ⟨r', .some (hb.front_of_isFree hfree ht) hk hs', hb'⟩

omit hE in
/-- A bracket that closes what `x` opened. -/
theorem rebreak_close (h : Abreast ends (x :: o) s r) (ht : s.front = .ok t)
    (hk : t.kind = .rparen ∨ t.kind = .rbracket ∨ t.kind = .rbrace)
    (hstep : Scope.step ⟨x :: o, false⟩ t.kind = ⟨o, false⟩) :
    r.front = .ok t ∧ Abreast ends o s.past.leave r.past.leave := by
  obtain ⟨he, hn, hne⟩ : t.kind ≠ .eof ∧ t.kind ≠ .newline ∧ t.kind ≠ .elseWord := by
    rcases hk with hk | hk | hk <;> simp [hk]
  obtain ⟨hr, hpast⟩ := h.take ht he hn hne
  rw [hstep] at hpast
  exact ⟨hr, hpast.leave⟩

omit hE in
theorem ReadsClosing.rebreak {kind : Brackets} (h : ReadsClosing kind s s')
    (hb : Abreast ends (bracketOf kind :: o) s r) :
    ∃ r', ReadsClosing kind r r' ∧ Abreast ends o s'.leave r'.leave := by
  cases h with
  | @single _ t _ ht hk hne =>
      have hclose : t.kind = .rparen ∨ t.kind = .rbracket ∨ t.kind = .rbrace := by
        rw [hk]
        cases kind <;> simp [Brackets.closing]
      have hstep : Scope.step ⟨bracketOf kind :: o, false⟩ t.kind = ⟨o, false⟩ := by
        rw [hk]
        cases kind <;> first | rfl | exact absurd rfl hne
      obtain ⟨hr, hpast⟩ := rebreak_close hb ht hclose hstep
      exact ⟨_, .single hr hk hne, hpast⟩
  | double ht hk hu hj ho =>
      obtain ⟨hr, hpast⟩ := hb.take ht (by simp [hk]) (by simp [hk]) (by simp [hk])
      rw [hk] at hpast
      have hhalf : Abreast ends (.half :: o) s.past r.past := hpast
      obtain ⟨hr', hpast'⟩ := rebreak_close hhalf hu (Or.inr (Or.inl hj)) (by rw [hj]; rfl)
      exact ⟨_, .double hr hk hr' hj ho, hpast'⟩

theorem ReadsGroup.rebreak {g : Group} (h : ReadsGroup E s g s') (hb : Abreast ends o s r) :
    ∃ r', ReadsGroup E r g r' ∧ Abreast ends o s' r' := by
  cases h with
  | @mk _ s₂ t u kind as ht hk hu ha hc =>
      have hkind := opening_of_brackets hk
      obtain ⟨hr, hpast⟩ := hb.take ht (by rw [hkind]; cases kind <;> decide)
        (by rw [hkind]; cases kind <;> decide) (by rw [hkind]; cases kind <;> decide)
      rw [(step_brackets hk).1] at hpast
      have hx := layout_bracketOf kind
      have hin : Abreast ends (bracketOf kind :: o) (s.past.enter .free) (r.past.enter .free) :=
        hx ▸ hpast.enter (bracketOf kind).layout
      obtain ⟨r₁, ha', hb₁⟩ := ha.rebreak hE hx hin
      obtain ⟨r₂, hc', hb₂⟩ := hc.rebreak hb₁
      exact ⟨_, .mk hr hk (hin.front_of_isFree (isFree_of_layout hx false) hu) ha' hc', hb₂⟩

theorem ReadsGroups.rebreak {gs : List Group} (h : ReadsGroups E s gs s')
    (hb : Abreast ends o s r) : ∃ r', ReadsGroups E r gs r' ∧ Abreast ends o s' r' := by
  induction h generalizing r with
  | stop ht hk =>
      obtain ⟨u, hu, rfl | ⟨-, hq⟩⟩ := hb.quiet ht
      · exact ⟨r, .stop hu hk, hb⟩
      · exact ⟨r, .stop hu hq.1, hb⟩
  | more hg _ ih =>
      obtain ⟨r₁, hg', hb₁⟩ := hg.rebreak hE hb
      obtain ⟨r', hs', hb'⟩ := ih hb₁
      exact ⟨r', .more hg' hs', hb'⟩

theorem ReadsFormal.rebreak {f : Formal} (h : ReadsFormal E s f s') (hx : x.layout = .free)
    (hb : Abreast ends (x :: o) s r) :
    ∃ r', ReadsFormal E r f r' ∧ Abreast ends (x :: o) s' r' := by
  have hfree := isFree_of_layout (o := o) hx false
  cases h with
  | required hi ht hk =>
      obtain ⟨r', hi', hb'⟩ := hi.rebreak hb
      exact ⟨r', .required hi' (hb'.front_of_isFree hfree ht) hk, hb'⟩
  | defaulted hi ht hk he =>
      obtain ⟨r₁, hi', hb₁⟩ := hi.rebreak hb
      obtain ⟨hr, hpast⟩ := rebreak_token hb₁ ht (by rw [hk]; rfl) (by simp [hk]) (by rw [hk]; rfl)
      obtain ⟨r', he', hb'⟩ := hE he hpast
      exact ⟨r', .defaulted hi' hr hk he', hb'⟩

theorem ReadsSomeFormals.rebreak {fs : List Formal} (h : ReadsSomeFormals E s fs s')
    (hx : x.layout = .free) (hb : Abreast ends (x :: o) s r) :
    ∃ r', ReadsSomeFormals E r fs r' ∧ Abreast ends (x :: o) s' r' := by
  have hfree := isFree_of_layout (o := o) hx false
  induction h generalizing r with
  | last hf ht hk =>
      obtain ⟨r', hf', hb'⟩ := hf.rebreak hE hx hb
      exact ⟨r', .last hf' (hb'.front_of_isFree hfree ht) hk, hb'⟩
  | more hf ht hk _ ih =>
      obtain ⟨r₁, hf', hb₁⟩ := hf.rebreak hE hx hb
      obtain ⟨hr, hpast⟩ := rebreak_token hb₁ ht (by rw [hk]; rfl) (by simp [hk]) (by rw [hk]; rfl)
      obtain ⟨r', hs', hb'⟩ := ih hpast
      exact ⟨r', .more hf' hr hk hs', hb'⟩

theorem ReadsFormals.rebreak {fs : List Formal} (h : ReadsFormals E s fs s')
    (hx : x.layout = .free) (hb : Abreast ends (x :: o) s r) :
    ∃ r', ReadsFormals E r fs r' ∧ Abreast ends (x :: o) s' r' := by
  have hfree := isFree_of_layout (o := o) hx false
  cases h with
  | none ht hk => exact ⟨r, .none (hb.front_of_isFree hfree ht) hk, hb⟩
  | some ht hk hs =>
      obtain ⟨r', hs', hb'⟩ := hs.rebreak hE hx hb
      exact ⟨r', .some (hb.front_of_isFree hfree ht) hk hs', hb'⟩

end Bracketed

end Grammar

end RSource
