import RSource.Proofs.Coverage
import RSource.Proofs.Completeness
import RSource.Proofs.Relocation
import RSource.Proofs.Scope

/-!
# Two sources side by side

A parse of two sources whose tokens are twins, where the second source may have more line feeds
behind tokens that go on anyway. Neither source is the original of the other: the same relation
serves sources with other blanks, with more line breaks, and one that stands inside another.

* `Pairing` — what two sources are compared by: where their places are sent, how both end, and
  what the second one may go on with where the first one ends.
* `Pairing.Reflows` — the tokens of the one are those of the other with line feeds added.
* `Pairing.At` — two tapes that stand at the same token, or at one behind added line feeds.
* `Pairing.Fronts` — **what the next visible tokens of two such tapes are**.
* `Pairing.Matches` — both parses come to the same, places apart.
* `Matches.bind`, `At.look`, `At.demand`, `At.dropLines` and the like — one lemma a request.
-/

namespace RSource

/-- The line feeds in front are dropped. -/
abbrev dropLineFeeds (ts : List Token) : List Token := ts.dropWhile (·.kind == .newline)

/-- The next token that is no line feed closes a bracket right behind the token. -/
def Adjoins (t : Token) (ts : List Token) : Prop :=
  ∃ u us, dropLineFeeds ts = u :: us ∧ u.kind = .rbracket ∧ u.offset = t.offset + 1

/-- What two sources are compared by. -/
structure Pairing where
  /-- The places of the first source are sent to those that `right` sends the others to. -/
  left : Location → Location
  right : Location → Location
  leftEnd : Except LexError Token
  rightEnd : Except LexError Token
  /-- What the second source goes on with where the first one ends. -/
  stops : Scope → List Token → Prop
  /-- Whether it does not matter how the second source is parsed if the first one is refused. -/
  lenient : Prop
  /-- Both sources end, or the second one goes on with a line feed outside all brackets. -/
  ends : ∀ {c : Scope} {us : List Token}, stops c us →
    us = [] ∧ SameEnd left right leftEnd rightEnd ∨
    c.opened = [] ∧ (∃ t, leftEnd = .ok t) ∧ (∃ u vs, us = u :: vs ∧ u.kind = .newline) ∧ lenient

namespace Pairing

variable (P : Pairing)

/-- Tokens that are twins by the maps of the pairing. -/
abbrev Twins (t u : Token) : Prop := Twin P.left P.right t u

/-- The tokens of the second source are twins of those of the first, with line feeds added behind
tokens that join what they stand between or leave a bracket open that ignores line feeds. -/
inductive Reflows : Scope → List Token → List Token → Prop where
  | stop {c : Scope} {us : List Token} (h : P.stops c us) : Reflows c [] us
  | step {c : Scope} {t u : Token} {lines ts us : List Token} (ht : P.Twins t u)
      (hc : c.closesElement t.kind = true → (Adjoins t ts ↔ Adjoins u (lines ++ us)))
      (hl : ∀ l ∈ lines, l.kind = .newline)
      (hb : lines = [] ∨ c.joins t.kind = true ∨ (c.step t.kind).isFree = true)
      (h : Reflows (c.step t.kind) ts us) : Reflows c (t :: ts) (u :: (lines ++ us))

/-- The same with line feeds added in front, if `joined` or the brackets allow it. -/
def Ahead (joined : Bool) (c : Scope) (ts us : List Token) : Prop :=
  ∃ lines vs, us = lines ++ vs ∧ (∀ l ∈ lines, l.kind = .newline) ∧
    (lines = [] ∨ joined = true ∨ c.isFree = true) ∧ P.Reflows c ts vs

/-- Two tapes in a scope, with the layouts of the brackets that have been entered. -/
structure At (joined : Bool) (c : Scope) (ls : List Layout) (s r : Tape) : Prop where
  layouts : s.layouts = ls
  layouts' : r.layouts = ls
  ending : s.ending = P.leftEnd
  ending' : r.ending = P.rightEnd
  tokens : P.Ahead joined c s.tokens r.tokens

/-- Two tapes between two parts of an expression, with line feeds added in front if `joined`. -/
abbrev Stands (joined : Bool) (o : List Bracket) (s r : Tape) : Prop :=
  P.At joined ⟨o, false⟩ (o.map Bracket.layout) s r

/-- The first source ends here, and how it goes on in the second only matters if it is accepted. -/
structure Over (c : Scope) : Prop where
  outside : c.opened = []
  ended : ∃ t, P.leftEnd = .ok t
  lenient : P.lenient

/-- The results of two parses are sent to one. -/
abbrev Same {α : Type} (relocate : (Location → Location) → α → α) (a b : α) : Prop :=
  relocate P.left a = relocate P.right b

/-- Both parses come to the same, places apart. -/
inductive Matches {α : Type} (R : α → α → Prop) (N : Tape → Tape → Prop) :
    Except Error (α × Tape) → Except Error (α × Tape) → Prop where
  | ok {a b : α} {s r : Tape} (hr : R a b) (hn : N s r) : Matches R N (.ok (a, s)) (.ok (b, r))
  | error {e e' : Error} (h : e.relocate P.left = e'.relocate P.right) :
      Matches R N (.error e) (.error e')
  | waived {e : Error} {y : Except Error (α × Tape)} (h : P.lenient) : Matches R N (.error e) y

/-! ## Line feeds in front -/

variable {P} {c : Scope} {ts us : List Token} {s r : Tape} {j : Bool} {ls : List Layout}

theorem dropLineFeeds_append {lines : List Token} (h : ∀ l ∈ lines, l.kind = .newline)
    (us : List Token) : dropLineFeeds (lines ++ us) = dropLineFeeds us :=
  List.dropWhile_append_of_pos fun l hl => by simp [h l hl]

theorem not_over (h : c.opened ≠ []) : ¬ P.Over c := fun ho => h ho.outside

theorem not_over_of_isFree (h : c.isFree = true) : ¬ P.Over c := by
  intro ho
  simp [Scope.isFree, Scope.layouts, ho.outside] at h

/-- Behind the line feeds the tokens are twins again, unless the first source ends there. -/
theorem Reflows.afterLines (h : P.Reflows c ts us) :
    P.Reflows c (dropLineFeeds ts) (dropLineFeeds us) ∨ P.Over c ∧ dropLineFeeds ts = [] := by
  induction h with
  | @stop c us h =>
      rcases P.ends h with ⟨rfl, -⟩ | ⟨ho, ht, -, hl⟩
      · exact Or.inl (.stop h)
      · exact Or.inr ⟨⟨ho, ht, hl⟩, rfl⟩
  | @step c t u lines ts us ht hc hl hb h ih =>
      by_cases hk : t.kind = .newline
      · rw [hk, Scope.step_newline] at ih
        have hu : u.kind = .newline := ht.kind.trans hk
        have hts : dropLineFeeds (t :: ts) = dropLineFeeds ts := by simp [dropLineFeeds, hk]
        have hus : dropLineFeeds (u :: (lines ++ us)) = dropLineFeeds us := by
          rw [← dropLineFeeds_append hl us]
          simp [dropLineFeeds, hu]
        rw [hts, hus]
        exact ih
      · have hu : u.kind ≠ .newline := by rwa [ht.kind]
        have hts : dropLineFeeds (t :: ts) = t :: ts := by simp [dropLineFeeds, hk]
        have hus : dropLineFeeds (u :: (lines ++ us)) = u :: (lines ++ us) := by
          simp [dropLineFeeds, hu]
        rw [hts, hus]
        exact Or.inl (.step ht hc hl hb h)

/-- Twins in front of both, with no line feeds between. -/
theorem Reflows.cons {t u : Token} (ht : P.Twins t u)
    (hc : c.closesElement t.kind = true → (Adjoins t ts ↔ Adjoins u us))
    (h : P.Reflows (c.step t.kind) ts us) : P.Reflows c (t :: ts) (u :: us) :=
  @step P c t u [] ts us ht hc (by simp) (Or.inl rfl) h

theorem Reflows.ahead (h : P.Reflows c ts us) (j : Bool) : P.Ahead j c ts us :=
  ⟨[], us, rfl, by simp, Or.inl rfl, h⟩

namespace At

theorem behind_lines (h : P.At j c ls s r)
    (hr : P.Reflows c s.afterLines.tokens r.afterLines.tokens) :
    P.At false c ls s.afterLines r.afterLines :=
  ⟨h.layouts, h.layouts', h.ending, h.ending', hr.ahead _⟩

/-- Line feeds that may be added are ignored where the brackets ignore them. -/
theorem settle (h : P.At j c ls s r) (hf : c.isFree = true) : P.At false c ls s r := by
  obtain ⟨lines, vs, hv, hl, -, hr⟩ := h.tokens
  exact { h with tokens := ⟨lines, vs, hv, hl, Or.inr (Or.inr hf), hr⟩ }

theorem enter (h : P.At j c ls s r) (l : Layout) : P.At j c (l :: ls) (s.enter l) (r.enter l) where
  layouts := by rw [Tape.enter_layouts, h.layouts]
  layouts' := by rw [Tape.enter_layouts, h.layouts']
  ending := h.ending
  ending' := h.ending'
  tokens := h.tokens

theorem leave (h : P.At j c ls s r) : P.At j c ls.tail s.leave r.leave where
  layouts := by rw [Tape.leave_layouts, h.layouts]
  layouts' := by rw [Tape.leave_layouts, h.layouts']
  ending := h.ending
  ending' := h.ending'
  tokens := h.tokens

theorem inBrackets (h : P.At j c ls s r) : r.inBrackets = s.inBrackets := by
  rw [Tape.inBrackets, Tape.inBrackets, h.layouts, h.layouts']

theorem isFree (h : P.At j c c.layouts s r) : s.isFree = c.isFree ∧ r.isFree = c.isFree := by
  rw [Tape.isFree, Tape.isFree, h.layouts, h.layouts']
  exact ⟨rfl, rfl⟩

/-- Behind all line feeds both tapes stand at the same token, unless the first source ends. -/
theorem afterLines (h : P.At j c ls s r) :
    P.Reflows c s.afterLines.tokens r.afterLines.tokens ∨
      P.Over c ∧ s.afterLines.tokens = [] := by
  obtain ⟨lines, vs, hv, hl, -, hr⟩ := h.tokens
  have hdrop : r.afterLines.tokens = dropLineFeeds vs := by
    rw [Tape.afterLines_tokens, hv]
    exact dropLineFeeds_append hl vs
  rw [hdrop]
  exact hr.afterLines

/-- From their next visible tokens on the tapes read twins. -/
theorem shown (h : P.At false c c.layouts s r) : P.Reflows c s.shown.tokens r.shown.tokens := by
  obtain ⟨hs, hr⟩ := h.isFree
  unfold Tape.shown
  rw [hs, hr]
  cases hf : c.isFree with
  | true => exact h.afterLines.resolve_right fun ho => not_over_of_isFree hf ho.1
  | false =>
      obtain ⟨lines, vs, hv, -, hb, ht⟩ := h.tokens
      have hnil : lines = [] := by simpa [hf] using hb
      subst hnil
      rw [if_neg Bool.false_ne_true, if_neg Bool.false_ne_true, hv]
      exact ht

end At

/-! ## The next tokens -/

/-- The next visible tokens: twins, taken from both tapes alike; the ends of both sources; two
faults; or the end of the first source, where the second goes on with a line feed. -/
inductive Fronts (P : Pairing) (c : Scope) (s r : Tape) : Prop where
  | token {t u : Token} (ht : s.front = .ok t) (hu : r.front = .ok u) (h : P.Twins t u)
      (hk : t.kind ≠ .eof) (hp : P.At (c.joins t.kind) (c.step t.kind) c.layouts s.past r.past)
      (hc : c.closesElement t.kind = true → (Adjoins t s.past.tokens ↔ Adjoins u r.past.tokens))
  | eof {t u : Token} (ht : s.front = .ok t) (hu : r.front = .ok u) (h : P.Twins t u)
      (hk : t.kind = .eof)
  | fault {e e' : LexError} (he : s.front = .error e) (he' : r.front = .error e')
      (h : e.relocate P.left = e'.relocate P.right)
  | surplus {t u : Token} (ht : s.front = .ok t) (hk : t.kind = .eof) (hu : r.front = .ok u)
      (hn : u.kind = .newline) (ho : P.Over c)

/-- **Two tapes at the same token have twins in front, or end alike.** -/
theorem At.fronts (h : P.At false c c.layouts s r) : P.Fronts c s r := by
  have hshown := h.shown
  have hends : s.shown.ending = P.leftEnd := (Tape.shown_ending s).trans h.ending
  have hendr : r.shown.ending = P.rightEnd := (Tape.shown_ending r).trans h.ending'
  generalize hts : s.shown.tokens = ts at hshown
  generalize hus : r.shown.tokens = us at hshown
  cases hshown with
  | stop hstop =>
      have hs : s.front = P.leftEnd := (Tape.head_nil hts).trans hends
      have heof : ∀ t, P.leftEnd = .ok t → t.kind = .eof := fun t ht =>
        s.ending_eof t (h.ending.trans ht)
      rcases P.ends hstop with ⟨rfl, hend⟩ | ⟨ho, ⟨t, ht⟩, ⟨u, vs, rfl, hn⟩, hl⟩
      · have hr : r.front = P.rightEnd := (Tape.head_nil hus).trans hendr
        generalize hl : P.leftEnd = le at hend hs
        generalize hr' : P.rightEnd = re at hend hr
        cases hend with
        | eof htu => exact .eof hs hr htu (heof _ hl)
        | fault he => exact .fault hs hr he
      · exact .surplus (hs.trans ht) (heof t ht) (Tape.head_cons hus) hn ⟨ho, ⟨t, ht⟩, hl⟩
  | @step _ t u lines ts us ht hc hl hb hrest =>
      have hpast : s.past.tokens = ts := by rw [Tape.past, Tape.tail_tokens, hts]; rfl
      have hpast' : r.past.tokens = lines ++ us := by rw [Tape.past, Tape.tail_tokens, hus]; rfl
      have hspelled := s.shown.spelled t (by rw [hts]; exact List.mem_cons_self ..)
      refine .token (Tape.head_cons hts) (Tape.head_cons hus) ht hspelled.ne_eof
        ⟨by rw [Tape.past_layouts, h.layouts], by rw [Tape.past_layouts, h.layouts'],
          by rw [Tape.past_ending, h.ending], by rw [Tape.past_ending, h.ending'], ?_⟩ ?_
      · rw [hpast, hpast']
        exact ⟨lines, us, rfl, hl, hb, hrest⟩
      · rw [hpast, hpast']
        exact hc

/-- The next tokens that are no line feeds: twins, from which both tapes go on; two faults; or the
end of the first source alone. -/
theorem At.beyonds (h : P.At j c ls s r) :
    (∃ t u, s.beyond = .ok t ∧ r.beyond = .ok u ∧ P.Twins t u ∧
      P.Reflows c s.afterLines.tokens r.afterLines.tokens) ∨
    (∃ e e', s.beyond = .error e ∧ r.beyond = .error e' ∧
      e.relocate P.left = e'.relocate P.right) ∨
    P.Over c ∧ s.afterLines.tokens = [] ∧ ∃ t, s.beyond = .ok t := by
  have hnil : s.afterLines.tokens = [] → s.beyond = P.leftEnd := fun hts =>
    (Tape.head_nil hts).trans ((Tape.afterLines_ending s).trans h.ending)
  rcases h.afterLines with hr | ⟨ho, hts⟩
  · generalize hts : s.afterLines.tokens = ts at hr
    generalize hus : r.afterLines.tokens = us at hr
    cases hr with
    | stop hstop =>
        have hs := hnil hts
        rcases P.ends hstop with ⟨rfl, hend⟩ | ⟨ho, ⟨t, ht⟩, -, hl⟩
        · have hr : r.beyond = P.rightEnd :=
            (Tape.head_nil hus).trans ((Tape.afterLines_ending r).trans h.ending')
          generalize P.leftEnd = le at hend hs
          generalize P.rightEnd = re at hend hr
          cases hend with
          | eof htu => exact Or.inl ⟨_, _, hs, hr, htu, .stop hstop⟩
          | fault he => exact Or.inr (Or.inl ⟨_, _, hs, hr, he⟩)
        · exact Or.inr (Or.inr ⟨⟨ho, ⟨t, ht⟩, hl⟩, rfl, t, hs.trans ht⟩)
    | step ht hc hl hb hrest =>
        exact Or.inl ⟨_, _, Tape.head_cons hts, Tape.head_cons hus, ht, .step ht hc hl hb hrest⟩
  · exact Or.inr (Or.inr ⟨ho, hts, ho.ended.imp fun _ ht => (hnil hts).trans ht⟩)

/-! ## One lemma a request -/

open Parse

variable {α β : Type} {R : α → α → Prop} {R' : β → β → Prop} {N N' : Tape → Tape → Prop}

/-- A sequence comes to the same if both parts do. -/
theorem Matches.bind {p q : Parse α} {f g : α → Parse β} (h : P.Matches R N (p.play s) (q.play r))
    (hf : ∀ a s' b r', p.play s = .ok (a, s') → q.play r = .ok (b, r') → R a b → N s' r' →
      P.Matches R' N' ((f a).play s') ((g b).play r')) :
    P.Matches R' N' ((p.bind f).play s) ((q.bind g).play r) := by
  rw [play_bind, play_bind]
  generalize hx : p.play s = x at h
  generalize hy : q.play r = y at h
  cases h with
  | ok ha hn => exact hf _ _ _ _ hx hy ha hn
  | error he => exact .error he
  | waived hl => exact .waived hl

/-- The result is wrapped up on both sides. -/
theorem Matches.map {p q : Parse α} {f g : α → β} (h : P.Matches R N (p.play s) (q.play r))
    (hf : ∀ a b, R a b → R' (f a) (g b)) :
    P.Matches R' N ((p.bind fun a => done (f a)).play s) ((q.bind fun b => done (g b)).play r) :=
  h.bind fun a _ b _ _ _ hr hn => .ok (hf a b hr) hn

namespace At

theorem look (h : P.At false c c.layouts s r) {f g : Token → Parse α}
    (hf : ∀ t u, s.front = .ok t → r.front = .ok u → P.Twins t u →
      P.Matches R N ((f t).play s) ((g u).play r))
    (ho : ∀ t u, P.Over c → s.front = .ok t → t.kind = .eof → r.front = .ok u →
      u.kind = .newline → P.Matches R N ((f t).play s) ((g u).play r)) :
    P.Matches R N ((Parse.look.bind f).play s) ((Parse.look.bind g).play r) := by
  simp only [play_bind, Parse.look, play, Tape.ahead]
  cases h.fronts with
  | token ht hu htu | eof ht hu htu => simpa [ht, hu] using hf _ _ ht hu htu
  | fault he he' heq => simpa [he, he'] using .error (congrArg Error.lexical heq)
  | surplus ht hk hu hn hover => simpa [ht, hu] using ho _ _ hover ht hk hu hn

/-- Where the first source does not end, the next tokens are twins. -/
theorem look_inside (h : P.At false c c.layouts s r) (hc : ¬ P.Over c) {f g : Token → Parse α}
    (hf : ∀ t u, s.front = .ok t → r.front = .ok u → P.Twins t u →
      P.Matches R N ((f t).play s) ((g u).play r)) :
    P.Matches R N ((Parse.look.bind f).play s) ((Parse.look.bind g).play r) :=
  h.look hf fun _ _ ho => absurd ho hc

/-- A parse that succeeds needs a token of an expression, so it does not look past the end. -/
theorem look_starts (h : P.At false c c.layouts s r) {f g : Token → Parse α}
    (hstart : ∀ x, (Parse.look.bind f).play s = .ok x → s.AtCode)
    (hf : ∀ t u, s.front = .ok t → r.front = .ok u → P.Twins t u →
      P.Matches R N ((f t).play s) ((g u).play r)) :
    P.Matches R N ((Parse.look.bind f).play s) ((Parse.look.bind g).play r) := by
  refine h.look hf fun t u ho ht hk _ _ => ?_
  cases hx : (f t).play s with
  | error e => exact .waived ho.lenient
  | ok x =>
      obtain ⟨v, hv, hl⟩ := hstart x (play_look_ok.mpr ⟨t, ht, hx⟩)
      rw [ht] at hv
      cases hv
      simp [hk, TokenKind.isLayout] at hl

theorem past (h : P.At false c c.layouts s r) {t : Token} (ht : s.front = .ok t)
    (hk : t.kind ≠ .eof) : P.At (c.joins t.kind) (c.step t.kind) c.layouts s.past r.past := by
  cases h.fronts with
  | token ht' _ _ _ hp => rw [ht] at ht'; cases ht'; exact hp
  | eof ht' _ _ hk' | surplus ht' hk' => rw [ht] at ht'; cases ht'; exact absurd hk' hk
  | fault he => rw [ht] at he; cases he

/-- The next tokens, which have been looked at, are taken. -/
theorem drop (h : P.At false c c.layouts s r) {t u : Token} (ht : s.front = .ok t)
    (hu : r.front = .ok u) (hk : t.kind ≠ .eof) {f g : Unit → Parse α}
    (hf : P.At (c.joins t.kind) (c.step t.kind) c.layouts s.past r.past →
      P.Matches R N ((f ()).play s.past) ((g ()).play r.past)) :
    P.Matches R N ((Parse.drop.bind f).play s) ((Parse.drop.bind g).play r) := by
  simpa [play_bind, Parse.drop, ht, hu] using hf (h.past ht hk)

/-- The tokens behind the next ones, which are twins and no ends, are looked at. -/
theorem lookSecond (h : P.At false c c.layouts s.past r.past) (hc : ¬ P.Over c) {t u : Token}
    (ht : s.front = .ok t) (hu : r.front = .ok u) (htu : P.Twins t u) (hk : t.kind ≠ .eof)
    {f g : Token → Parse α}
    (hf : ∀ v w, s.past.front = .ok v → r.past.front = .ok w → P.Twins v w →
      P.Matches R N ((f v).play s) ((g w).play r)) :
    P.Matches R N ((Parse.lookSecond.bind f).play s) ((Parse.lookSecond.bind g).play r) := by
  have hk' : u.kind ≠ .eof := by rwa [htu.kind]
  simp only [play_bind, Parse.lookSecond, play, Tape.ahead, ht, hu, if_neg hk, if_neg hk']
  cases h.fronts with
  | token hv hw hvw | eof hv hw hvw => simpa [hv, hw] using hf _ _ hv hw hvw
  | fault he he' heq => simpa [he, he'] using .error (congrArg Error.lexical heq)
  | surplus _ _ _ _ hover => exact absurd hover hc

/-- Whatever stands in front, both parses refuse it alike. -/
theorem reject (h : P.At false c c.layouts s r) (expected : List Continuation) :
    P.Matches R N ((Parse.reject expected : Parse α).play s)
      ((Parse.reject expected : Parse α).play r) := by
  simp only [play]
  cases h.fronts with
  | token ht hu htu | eof ht hu htu => simpa [ht, hu] using .error (htu.unexpected expected)
  | fault he he' heq => simpa [he, he'] using .error (congrArg Error.lexical heq)
  | surplus ht hk hu hn hover => simpa [ht, hu] using .waived hover.lenient

theorem tooDeep (h : P.At false c c.layouts s r) :
    P.Matches R N ((Parse.tooDeep : Parse α).play s) ((Parse.tooDeep : Parse α).play r) := by
  simp only [play]
  cases h.fronts with
  | token ht hu htu | eof ht hu htu => simpa [ht, hu] using .error (congrArg Error.tooDeep htu.loc)
  | fault he he' heq => simpa [he, he'] using .error (congrArg Error.lexical heq)
  | surplus ht hk hu hn hover => simpa [ht, hu] using .waived hover.lenient

/-- A token of one kind is demanded of both. -/
theorem demand (h : P.At false c c.layouts s r) {k : TokenKind} (hk : k ≠ .eof)
    {f g : Token → Parse α}
    (hf : ∀ t u, t.kind = k → P.Twins t u → P.At (c.joins k) (c.step k) c.layouts s.past r.past →
      (c.closesElement k = true → (Adjoins t s.past.tokens ↔ Adjoins u r.past.tokens)) →
      P.Matches R N ((f t).play s.past) ((g u).play r.past)) :
    P.Matches R N (((Parse.demand k).bind f).play s) (((Parse.demand k).bind g).play r) := by
  have hover : ∀ t, s.front = .ok t → t.kind ≠ k → P.lenient →
      P.Matches R N (((Parse.demand k).bind f).play s) (((Parse.demand k).bind g).play r) := by
    intro t ht hne hl
    have herr : ∃ e, ((Parse.demand k).bind f).play s = .error e := by
      simp [Parse.demand, Parse.look, play_bind, Tape.ahead, ht, hne]
    obtain ⟨e, he⟩ := herr
    rw [he]
    exact .waived hl
  have hrefuse : ∀ t u, s.front = .ok t → r.front = .ok u → P.Twins t u → t.kind ≠ k →
      P.Matches R N (((Parse.demand k).bind f).play s) (((Parse.demand k).bind g).play r) := by
    intro t u ht hu htu hne
    have hne' : u.kind ≠ k := by rwa [htu.kind]
    simpa [Parse.demand, Parse.look, play_bind, Tape.ahead, ht, hu, hne, hne'] using
      .error (htu.unexpected [.token k])
  cases h.fronts with
  | @token t u ht hu htu hk' hp hc =>
      by_cases hkt : t.kind = k
      · have hku : u.kind = k := htu.kind.trans hkt
        rw [hkt] at hp hc
        have hnext := hf t u hkt htu hp hc
        simpa [Parse.demand, Parse.look, Parse.accept, play_bind, Tape.ahead, ht, hu, hkt, hku]
          using hnext
      · exact hrefuse t u ht hu htu hkt
  | eof ht hu htu hk' => exact hrefuse _ _ ht hu htu (by rw [hk']; exact Ne.symm hk)
  | fault he he' heq =>
      simpa [Parse.demand, Parse.look, play_bind, Tape.ahead, he, he'] using
        .error (congrArg Error.lexical heq)
  | surplus ht hk' hu hn ho => exact hover _ ht (by rw [hk']; exact Ne.symm hk) ho.lenient

/-- Line feeds are taken before a parse that needs a token of its own. -/
theorem dropLines (h : P.At j c ls s r) {p q : Parse α}
    (hp : P.At false c ls s.afterLines r.afterLines →
      P.Matches R N (p.play s.afterLines) (q.play r.afterLines))
    (hstart : ∀ x, p.play s.afterLines = .ok x → s.afterLines.tokens ≠ []) :
    P.Matches R N ((Parse.dropLines.bind fun _ => p).play s)
      ((Parse.dropLines.bind fun _ => q).play r) := by
  simp only [play_bind, Parse.dropLines, play]
  rcases h.beyonds with ⟨t, u, ht, hu, -, hr⟩ | ⟨e, e', he, he', heq⟩ | ⟨ho, hnil, t, ht⟩
  · simpa [ht, hu] using hp (h.behind_lines hr)
  · simpa [he, he'] using .error (congrArg Error.lexical heq)
  · rw [ht]
    cases hx : p.play s.afterLines with
    | ok x => exact absurd hnil (hstart x hx)
    | error e => simpa [hx] using .waived ho.lenient

end At

end Pairing

end RSource
