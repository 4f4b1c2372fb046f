import RSource.Buffer
import RSource.Proofs.Sessions
import RSource.Proofs.Tape

/-!
# Buffered feeds and plain lists

A buffered feed keeps a cursor, a buffer and the end of the input, and reads no token twice. Together
they stand for one list: the tokens that have not been taken, without comments, and how they end.

* `TokenList` — that list, with the layouts of the open brackets; `TokenList.serve` answers the
  requests by operations on lists.
* `Agrees` — two results that are the same failure, or the same answer with related states.
* `answers_eq` — related states give the same answers, if every request agrees.
* `Represents` — the list that a buffered feed stands for.
* `Represents.serve` — **every request to a buffered feed agrees with its list**.
* `buffered_feed_refines_list` — **a buffered feed, a feed and the plain list of the tokens of a text
  give the same answers**, whatever is asked.
* `Parse.runBuffered_ofText` — so a parse does the same on a buffered feed.
-/

namespace RSource

/-! ## Plain lists -/

/-- The tokens not taken yet, without comments, what stands behind them, over and over, and the
layouts of the open brackets, the innermost first. -/
@[ext] structure TokenList where
  rest : List Token
  last : Except LexError Token
  layouts : List Layout

/-- The `n`th of some tokens, and `last` behind them. -/
def nth (last : Except LexError Token) (ts : List Token) (n : Nat) : Except LexError Token :=
  match ts[n]? with
  | some t => .ok t
  | none => last

namespace TokenList

/-- Whether the innermost brackets ignore line feeds. -/
def isFree (l : TokenList) : Bool := l.layouts.head? == some .free

/-- The visible tokens: without line feeds if the innermost brackets ignore them. -/
def visible (l : TokenList) : List Token :=
  if l.isFree then l.rest.filter (·.kind ≠ .newline) else l.rest

/-- The `n`th visible token, from zero. -/
def ahead (n : Nat) (l : TokenList) : Except LexError Token := nth l.last l.visible n

/-- The list without the line feeds in front. -/
def afterLines (l : TokenList) : TokenList :=
  { l with rest := l.rest.dropWhile (·.kind == .newline) }

/-- The next token that is no line feed. -/
def beyond (l : TokenList) : Except LexError Token :=
  nth l.last (l.rest.filter (·.kind ≠ .newline)) 0

/-- The list from its first visible token on. -/
def shown (l : TokenList) : TokenList := if l.isFree then l.afterLines else l

/-- The list without its first visible token and without the line feeds hidden before it. What stands
behind all tokens is not taken. -/
def past (l : TokenList) : TokenList := { l with rest := l.shown.rest.tail }

/-- One request to a plain list. -/
def serve : Request → TokenList → Except LexError (Answer × TokenList)
  | .look, l => (l.ahead 0).map fun t => (.token t, l)
  | .lookKind, l => (l.ahead 0).map fun t => (.kind t.kind, l)
  | .ahead n, l => (l.ahead n).map fun t => (.token t, l)
  | .take, l => (l.ahead 0).map fun t => (.token t, l.past)
  | .skipLines, l => l.beyond.map fun _ => (.done, l.afterLines)
  | .beyondLines, l => l.beyond.map fun t => (.kind t.kind, l)
  | .enter layout, l => .ok (.done, { l with layouts := layout :: l.layouts })
  | .leave, l => .ok (.done, { l with layouts := l.layouts.tail })
  | .inBrackets, l => .ok (.flag (!l.layouts.isEmpty), l)

end TokenList

theorem nth_of_lt {last : Except LexError Token} {ts : List Token} {n : Nat} {t : Token}
    (h : ts[n]? = some t) : nth last ts n = .ok t := by
  rw [nth, h]

theorem nth_of_le {last : Except LexError Token} {ts : List Token} {n : Nat}
    (h : ts.length ≤ n) : nth last ts n = last := by
  rw [nth, List.getElem?_eq_none h]

theorem nth_nil (last : Except LexError Token) (n : Nat) : nth last [] n = last := rfl

theorem nth_zero_cons (last : Except LexError Token) (t : Token) (ts : List Token) :
    nth last (t :: ts) 0 = .ok t := rfl

/-! ## Agreement -/

section Agreement

variable {α β σ τ : Type} {R : σ → τ → Prop}

/-- The same failure, or the same answer with related states behind it. -/
inductive Agrees (R : σ → τ → Prop) : Except LexError (α × σ) → Except LexError (α × τ) → Prop where
  | fault (e : LexError) : Agrees R (.error e) (.error e)
  | answer (a : α) {s : σ} {t : τ} (h : R s t) : Agrees R (.ok (a, s)) (.ok (a, t))

theorem Agrees.map {x : Except LexError (α × σ)} {y : Except LexError (α × τ)} (h : Agrees R x y)
    (f : α → β) : Agrees R (x.map fun p => (f p.1, p.2)) (y.map fun p => (f p.1, p.2)) := by
  cases h with
  | fault e => exact .fault e
  | answer a h => exact .answer (f a) h

theorem Agrees.mono {R' : σ → τ → Prop} {x : Except LexError (α × σ)} {y : Except LexError (α × τ)}
    (h : Agrees R x y) (hR : ∀ s t, R s t → R' s t) : Agrees R' x y := by
  cases h with
  | fault e => exact .fault e
  | answer a h => exact .answer a (hR _ _ h)

/-- What is done with an answer in two steps is done in one. -/
theorem map_answer {γ : Type} (x : Except LexError α) (f : α → β) (g : β → γ) :
    (x.map f).map g = x.map fun a => g (f a) := by
  cases x <;> rfl

/-- Looking at what both states show changes neither of them. -/
theorem Agrees.look (x : Except LexError β) (f : β → α) {s : σ} {t : τ} (h : R s t) :
    Agrees R (x.map fun b => (f b, s)) (x.map fun b => (f b, t)) := by
  cases x with
  | error e => exact .fault e
  | ok b => exact .answer (f b) h

/-- Agreement with an answer that has been worked out comes from the answer itself. -/
theorem Agrees.cases_map {x : Except LexError (α × σ)} {y : Except LexError β} {f : β → α × τ}
    (h : Agrees R x (y.map f)) :
    (∃ e, x = .error e ∧ y = .error e) ∨
      ∃ b s, y = .ok b ∧ x = .ok ((f b).1, s) ∧ R s (f b).2 := by
  cases y with
  | error e => cases h; exact .inl ⟨e, rfl, rfl⟩
  | ok b =>
      have hb : Agrees R x (.ok ((f b).1, (f b).2)) := h
      cases hb with
      | answer _ hnext => exact .inr ⟨b, _, rfl, rfl, hnext⟩

/-- **Related states give the same answers**, if every single request agrees. -/
theorem answers_eq {serve₁ : Request → σ → Except LexError (Answer × σ)}
    {serve₂ : Request → τ → Except LexError (Answer × τ)}
    (hserve : ∀ request s t, R s t → Agrees R (serve₁ request s) (serve₂ request t))
    (requests : List Request) {s : σ} {t : τ} (h : R s t) :
    answers serve₁ requests s = answers serve₂ requests t := by
  induction requests generalizing s t with
  | nil => rfl
  | cons request requests ih =>
      have hagrees := hserve request s t h
      unfold answers
      generalize serve₁ request s = x at hagrees ⊢
      generalize serve₂ request t = y at hagrees ⊢
      cases hagrees with
      | fault e => rfl
      | answer _ hnext => simp only [ih hnext]

end Agreement

/-! ## The list of a feed -/

theorem filter_not_line (ts : List Token) :
    ts.filter (fun t => !(t.kind == .newline)) = ts.filter (·.kind ≠ .newline) := by
  apply List.filter_congr
  intro t _
  by_cases hk : t.kind = .newline <;> simp [hk]

/-- Line feeds in front do not matter to what is left without line feeds. -/
theorem filter_lines (ts : List Token) :
    ts.filter (·.kind ≠ .newline) =
      match ts.dropWhile (·.kind == .newline) with
      | [] => []
      | t :: us => t :: us.filter (·.kind ≠ .newline) := by
  induction ts with
  | nil => rfl
  | cons t ts ih =>
      by_cases hk : t.kind = .newline
      · rw [List.filter_cons_of_neg (by simp [hk]), List.dropWhile_cons_of_pos (by simp [hk]), ih]
      · rw [List.filter_cons_of_pos (by simp [hk]), List.dropWhile_cons_of_neg (by simp [hk])]

namespace TokenList

/-- The visible tokens are the first one shown and those visible past it. -/
theorem visible_eq (l : TokenList) :
    l.visible =
      match l.shown.rest with
      | [] => []
      | t :: _ => t :: l.past.visible := by
  unfold visible past shown
  have hfree : ∀ ts, TokenList.isFree { l with rest := ts } = l.isFree := fun _ => rfl
  cases hl : l.isFree with
  | true =>
      simp only [hfree, hl, if_true]
      rw [filter_lines]
      unfold afterLines
      cases l.rest.dropWhile (·.kind == .newline) <;> rfl
  | false =>
      simp only [hfree, hl, Bool.false_eq_true, if_false]
      cases l.rest <;> rfl

/-- The next visible token is the first one shown. -/
theorem ahead_zero (l : TokenList) : l.ahead 0 = nth l.last l.shown.rest 0 := by
  unfold ahead
  rw [visible_eq]
  cases l.shown.rest <;> rfl

theorem beyond_eq (l : TokenList) : l.beyond = nth l.last l.afterLines.rest 0 := by
  unfold beyond afterLines
  rw [filter_lines]
  cases l.rest.dropWhile (·.kind == .newline) <;> rfl

variable {l : TokenList} {t : Token} {ts : List Token}

theorem afterLines_of_nil (hrest : l.rest = []) : l.afterLines = l := by
  unfold afterLines
  rw [hrest]
  exact TokenList.ext hrest.symm rfl rfl

theorem afterLines_of_line (hrest : l.rest = t :: ts) (hk : t.kind = .newline) :
    afterLines { l with rest := ts } = l.afterLines := by
  unfold afterLines
  rw [hrest, List.dropWhile_cons_of_pos (by simp [hk])]

theorem afterLines_of_ne (hrest : l.rest = t :: ts) (hk : t.kind ≠ .newline) :
    l.afterLines = l := by
  unfold afterLines
  rw [hrest, List.dropWhile_cons_of_neg (by simp [hk])]
  exact TokenList.ext hrest.symm rfl rfl

end TokenList

namespace Tape

/-- The list of a tape. -/
def list (s : Tape) : TokenList := ⟨s.tokens, s.ending, s.layouts⟩

variable (s : Tape)

theorem list_shown : s.shown.list = s.list.shown := by
  unfold shown TokenList.shown
  have hfree : s.list.isFree = s.isFree := rfl
  rw [hfree]
  split <;> rfl

theorem list_past : s.past.list = s.list.past := by
  have hshown : s.shown.tokens = s.list.shown.rest := congrArg TokenList.rest (list_shown s)
  unfold TokenList.past
  rw [← hshown]
  apply TokenList.ext
  · rfl
  · exact s.past_ending
  · exact s.past_layouts

theorem beyond_list : s.beyond = s.list.beyond := by
  unfold TokenList.beyond
  rw [filter_lines]
  unfold beyond head
  show _ = nth _ (match s.tokens.dropWhile (·.kind == .newline) with
      | [] => []
      | t :: us => t :: us.filter (·.kind ≠ .newline)) 0
  rw [afterLines_tokens]
  cases s.tokens.dropWhile (·.kind == .newline) <;> rfl

theorem ahead_list (n : Nat) : s.ahead n = s.list.ahead n := by
  unfold TokenList.ahead
  induction n generalizing s with
  | zero =>
      rw [s.list.visible_eq, ← list_shown]
      unfold ahead front head
      cases h : s.shown.tokens with
      | nil =>
          show s.shown.ending = _
          rw [show s.shown.list.rest = [] from h, shown_ending]
          rfl
      | cons t ts =>
          rw [show s.shown.list.rest = t :: ts from h]
          rfl
  | succ n ih =>
      rw [s.list.visible_eq, ← list_shown]
      unfold ahead
      cases h : s.shown.tokens with
      | nil =>
          rw [show s.shown.list.rest = [] from h, front, head_nil h, shown_ending]
          show _ = s.ending
          cases hend : s.ending with
          | error e => rfl
          | ok t => simp only [if_pos (s.ending_eof t hend)]
      | cons t ts =>
          have hmem : t ∈ s.shown.tokens := h ▸ List.mem_cons_self
          have hne : t.kind ≠ .eof := (s.shown.spelled t hmem).ne_eof
          rw [show s.shown.list.rest = t :: ts from h, front, head_cons h]
          simp only [if_neg hne]
          rw [ih, list_past]
          rfl

end Tape

namespace Feed

variable (s : Feed)

theorem take_agrees : Agrees (fun s l => s.tape.list = l) s.take
    ((s.tape.list.ahead 0).map fun t => (t, s.tape.list.past)) := by
  have htake := s.take_tape
  have hfront : s.tape.front = s.tape.list.ahead 0 := s.tape.ahead_list 0
  rw [hfront] at htake
  rw [← Tape.list_past]
  generalize s.tape.list.ahead 0 = x at htake ⊢
  cases x with
  | error e =>
      cases hs : s.take with
      | error e' => rw [hs] at htake; cases htake; exact .fault e
      | ok p => rw [hs] at htake; cases htake
  | ok t =>
      cases hs : s.take with
      | error e' => rw [hs] at htake; cases htake
      | ok p =>
          rw [hs] at htake
          simp only [Except.map, Except.ok.injEq, Prod.mk.injEq] at htake
          obtain ⟨rfl, htape⟩ := htake
          exact .answer _ (congrArg Tape.list htape)

theorem skipLines_agrees : Agrees (fun s l => s.tape.list = l) (s.skipLines.map fun s' => ((), s'))
    (s.tape.list.beyond.map fun _ => ((), s.tape.list.afterLines)) := by
  have hskip := s.skipLines_tape
  rw [Tape.beyond_list] at hskip
  generalize s.tape.list.beyond = x at hskip ⊢
  cases x with
  | error e =>
      cases hs : s.skipLines with
      | error e' => rw [hs] at hskip; cases hskip; exact .fault e
      | ok p => rw [hs] at hskip; cases hskip
  | ok t =>
      cases hs : s.skipLines with
      | error e' => rw [hs] at hskip; cases hskip
      | ok s' =>
          rw [hs] at hskip
          simp only [Except.map, Except.ok.injEq] at hskip
          exact .answer () (congrArg Tape.list hskip)

/-- **Every request to a feed agrees with its list.** -/
theorem serve_agrees (request : Request) (s : Feed) (l : TokenList) (h : s.tape.list = l) :
    Agrees (fun s l => s.tape.list = l) (serve request s) (l.serve request) := by
  subst h
  have hahead : ∀ n, s.ahead n = s.tape.list.ahead n := fun n => by
    rw [ahead_tape, Tape.ahead_list]
  cases request with
  | look =>
      show Agrees _ (Except.map _ (s.ahead 0)) _
      rw [hahead]
      exact Agrees.look _ Answer.token rfl
  | lookKind =>
      show Agrees _ (Except.map _ (s.ahead 0)) _
      rw [hahead]
      exact Agrees.look _ (fun t => Answer.kind (Token.kind t)) rfl
  | ahead n =>
      show Agrees _ (Except.map _ (s.ahead n)) _
      rw [hahead]
      exact Agrees.look _ Answer.token rfl
  | take =>
      have htake := s.take_agrees.map Answer.token
      rw [map_answer] at htake
      exact htake
  | skipLines =>
      have hskip := s.skipLines_agrees.map fun _ => Answer.done
      rw [map_answer, map_answer] at hskip
      exact hskip
  | beyondLines =>
      show Agrees _ (Except.map _ s.beyondLines) _
      rw [beyondLines_tape, Tape.beyond_list, map_answer]
      exact Agrees.look _ (fun t => Answer.kind (Token.kind t)) rfl
  | enter layout => exact .answer _ rfl
  | leave => exact .answer _ rfl
  | inBrackets => exact .answer _ rfl

end Feed

/-! ## The list of a buffered feed -/

/-- The next token that is no comment is the first of those a reader has left. -/
theorem Reader.nextShown_comment (r : Reader) :
    match r.nextShown (· == .comment) with
    | .error e => r.remaining = ([], .error e)
    | .ok (t, after) =>
        t.kind = .eof ∧ r.remaining = ([], .ok t) ∨
          t.kind ≠ .eof ∧ r.remaining = (t :: after.remaining.1, after.remaining.2) := by
  have hs := nextShown_remaining (· == .comment) rfl rfl r
  rw [dropWhile_comment r.remaining_spelled] at hs
  have hspelled := r.remaining_spelled
  have hending := r.remaining_ending
  generalize r.remaining = left at hs hspelled hending ⊢
  obtain ⟨ts, last⟩ := left
  cases hn : r.nextShown (· == .comment) with
  | error e =>
      rw [hn] at hs
      cases ts with
      | cons t ts => cases hs
      | nil =>
          cases last with
          | error e' => cases hs; rfl
          | ok eof => cases hs
  | ok p =>
      obtain ⟨t, after⟩ := p
      rw [hn] at hs
      cases ts with
      | cons u ts =>
          simp only [Except.map, Except.ok.injEq, Prod.mk.injEq] at hs
          obtain ⟨rfl, hleft⟩ := hs
          exact .inr ⟨(hspelled t List.mem_cons_self).ne_eof, by rw [hleft]⟩
      | nil =>
          cases last with
          | error e' => cases hs
          | ok eof =>
              simp only [Except.map, Except.ok.injEq, Prod.mk.injEq] at hs
              obtain ⟨rfl, -⟩ := hs
              exact .inl ⟨hending t rfl, rfl⟩

/-- The list that a buffered feed stands for. Until the end has been read, the reader has the rest of
it; then the buffer holds all of it and the end behind it. -/
inductive Represents : BufferedFeed → TokenList → Prop where
  | reading {r : Reader} {buffer : List Token} (layouts : List Layout)
      (hbuffer : ∀ t ∈ buffer, t.kind ≠ .eof) :
      Represents ⟨r, buffer, none, layouts⟩ ⟨buffer ++ r.remaining.1, r.remaining.2, layouts⟩
  | ended (r : Reader) {ts : List Token} {eof : Token} (layouts : List Layout)
      (hts : ∀ t ∈ ts, t.kind ≠ .eof) (heof : eof.kind = .eof) :
      Represents ⟨r, ts ++ [eof], some eof, layouts⟩ ⟨ts, .ok eof, layouts⟩

namespace Represents

variable {b : BufferedFeed} {l : TokenList}

theorem layouts_eq (h : Represents b l) : b.layouts = l.layouts := by
  cases h <;> rfl

theorem isFree_eq (h : Represents b l) : b.isFree = l.isFree := by
  unfold BufferedFeed.isFree TokenList.isFree
  rw [h.layouts_eq]

theorem enter (h : Represents b l) (layout : Layout) :
    Represents (b.enter layout) { l with layouts := layout :: l.layouts } := by
  cases h with
  | reading layouts hbuffer => exact .reading (layout :: layouts) hbuffer
  | ended r layouts hts heof => exact .ended r (layout :: layouts) hts heof

theorem leave (h : Represents b l) :
    Represents b.leave { l with layouts := l.layouts.tail } := by
  cases h with
  | reading layouts hbuffer => exact .reading layouts.tail hbuffer
  | ended r layouts hts heof => exact .ended r layouts.tail hts heof

/-- No token before the end is one. -/
theorem ne_eof (h : Represents b l) : ∀ t ∈ l.rest, t.kind ≠ .eof := by
  intro t ht
  cases h with
  | reading layouts hbuffer =>
      rcases List.mem_append.mp ht with ht | ht
      · exact hbuffer t ht
      · exact (Reader.remaining_spelled _ t ht).ne_eof
  | ended r layouts hts heof => exact hts t ht

/-- What stands behind all tokens is a fault or the end. -/
theorem last_eof (h : Represents b l) {t : Token} (hlast : l.last = .ok t) : t.kind = .eof := by
  cases h with
  | reading layouts hbuffer => exact Reader.remaining_ending _ t hlast
  | ended r layouts hts heof => cases hlast; exact heof

/-- The bound of a buffered feed is one. -/
theorem length_le (h : Represents b l) : l.rest.length ≤ b.bound := by
  unfold BufferedFeed.bound
  cases h with
  | @reading r buffer layouts hbuffer =>
      have := r.length_remaining
      simp only [List.length_append]
      omega
  | ended r layouts hts heof =>
      simp only [List.length_append]
      omega

/-! ### The buffer -/

/-- What is true of the feed behind a look at place `i`: it stands for the same list, and a token at
that place is in the buffer. -/
def Holds (i : Nat) (b : BufferedFeed) (l : TokenList) : Prop :=
  Represents b l ∧ (i < l.rest.length → i < b.buffer.length)

/-- Reading on gives the token that stands so far behind the buffer. -/
theorem readOn (n : Nat) (r : Reader) {buffer : List Token} (layouts : List Layout)
    (hbuffer : ∀ t ∈ buffer, t.kind ≠ .eof) {l : TokenList}
    (hl : l = ⟨buffer ++ r.remaining.1, r.remaining.2, layouts⟩) :
    Agrees (Holds (buffer.length + n)) (BufferedFeed.readOn n ⟨r, buffer, none, layouts⟩)
      ((nth l.last l.rest (buffer.length + n)).map fun t => (t, l)) := by
  subst hl
  have hread := r.nextShown_comment
  unfold BufferedFeed.readOn BufferedFeed.read
  cases hn : r.nextShown (· == .comment) with
  | error e =>
      rw [hn] at hread
      show Agrees _ (.error e) _
      rw [hread, nth_of_le (by simp)]
      exact .fault e
  | ok p =>
      obtain ⟨t, after⟩ := p
      rw [hn] at hread
      rcases hread with ⟨hk, hleft⟩ | ⟨hk, hleft⟩
      · -- Behind the end nothing more is read.
        have hholds : Holds (buffer.length + n) ⟨after, buffer ++ [t], some t, layouts⟩
            ⟨buffer, .ok t, layouts⟩ := by
          constructor
          · exact .ended after layouts hbuffer hk
          · intro hlt
            have hbound : buffer.length + n < buffer.length := hlt
            omega
        rw [hleft, nth_of_le (by simp), List.append_nil]
        simp only [if_pos hk]
        cases n with
        | zero => exact .answer t hholds
        | succ n =>
            unfold BufferedFeed.readOn
            exact .answer t hholds
      · have hlist : buffer ++ r.remaining.1 = (buffer ++ [t]) ++ after.remaining.1 := by
          rw [hleft, List.append_assoc, List.singleton_append]
        have hmore : ∀ u ∈ buffer ++ [t], u.kind ≠ .eof := by
          intro u hu
          rcases List.mem_append.mp hu with hu | hu
          · exact hbuffer u hu
          · exact List.mem_singleton.mp hu ▸ hk
        simp only [if_neg hk]
        rw [hlist, show r.remaining.2 = after.remaining.2 by rw [hleft]]
        cases n with
        | zero =>
            rw [nth_of_lt (t := t) (by simp)]
            refine .answer t ⟨.reading layouts hmore, ?_⟩
            intro _
            simp
        | succ n =>
            have ih := readOn n after layouts hmore rfl
            rw [List.length_append, List.length_singleton, Nat.add_right_comm] at ih
            exact ih

/-- **The buffer gives the token at a place of the list.** -/
theorem buffered {b : BufferedFeed} {l : TokenList} (h : Represents b l) (i : Nat) :
    Agrees (Holds i) (b.buffered i) ((nth l.last l.rest i).map fun t => (t, l)) := by
  unfold BufferedFeed.buffered
  cases hi : b.buffer[i]? with
  | some t =>
      have hlt : i < b.buffer.length := (List.getElem?_eq_some_iff.mp hi).1
      have hholds : Holds i b l := ⟨h, fun _ => hlt⟩
      suffices hnth : nth l.last l.rest i = .ok t by
        rw [hnth]
        exact .answer t hholds
      cases h with
      | reading layouts hbuffer =>
          apply nth_of_lt
          rw [List.getElem?_append_left hlt, hi]
      | @ended r ts eof layouts hts heof =>
          -- What the buffer holds last is the end.
          by_cases hts' : i < ts.length
          · rw [List.getElem?_append_left hts'] at hi
            exact nth_of_lt hi
          · have hlast : i = ts.length := by
              simp only [List.length_append, List.length_singleton] at hlt
              omega
            rw [hlast, List.getElem?_concat_length] at hi
            cases hi
            exact nth_of_le (Nat.le_of_eq hlast.symm)
  | none =>
      have hle := List.getElem?_eq_none_iff.mp hi
      cases h with
      | @reading r buffer layouts hbuffer =>
          have hread := readOn (i - buffer.length) r layouts hbuffer rfl
          rw [Nat.add_sub_cancel' hle] at hread
          exact hread
      | @ended r ts eof layouts hts heof =>
          have hle' : ts.length ≤ i := by
            simp only [List.length_append, List.length_singleton] at hle
            omega
          unfold BufferedFeed.readOn
          rw [nth_of_le hle']
          refine .answer eof ⟨.ended r layouts hts heof, ?_⟩
          intro hlt
          have : i < ts.length := hlt
          omega

/-- A look along the buffer gives what is not hidden in the list from there on. -/
theorem aheadFrom (hidden : TokenKind → Bool) {b : BufferedFeed} {l : TokenList}
    (h : Represents b l) {steps i : Nat} (hsteps : l.rest.length ≤ i + steps) (n : Nat) :
    Agrees Represents (b.aheadFrom hidden steps n i)
      ((nth l.last ((l.rest.drop i).filter (!hidden ·.kind)) n).map fun t => (t, l)) := by
  induction steps generalizing b i n with
  | zero =>
      have hfound := (h.buffered i).mono fun _ _ hholds => hholds.1
      rw [Nat.add_zero] at hsteps
      rw [nth_of_le hsteps] at hfound
      rw [List.drop_eq_nil_of_le hsteps]
      exact hfound
  | succ steps ih =>
      have hfound := h.buffered i
      unfold BufferedFeed.aheadFrom
      generalize b.buffered i = x at hfound ⊢
      cases hi : l.rest[i]? with
      | none =>
          have hle := List.getElem?_eq_none_iff.mp hi
          rw [nth_of_le hle] at hfound
          rw [List.drop_eq_nil_of_le hle]
          show Agrees _ _ (Except.map _ l.last)
          cases hlast : l.last with
          | error e =>
              rw [hlast] at hfound
              cases hfound
              exact .fault e
          | ok t =>
              rw [hlast] at hfound
              cases hfound with
              | answer _ hholds =>
                  simp only [if_pos (h.last_eof hlast)]
                  exact .answer t hholds.1
      | some t =>
          have hk := h.ne_eof t (List.mem_of_getElem? hi)
          obtain ⟨hlt, rfl⟩ := List.getElem?_eq_some_iff.mp hi
          rw [nth_of_lt hi] at hfound
          rw [List.drop_eq_getElem_cons hlt]
          cases hfound with
          | @answer _ b' _ hholds =>
              have hrest := fun m => ih hholds.1 (i := i + 1) (by omega) m
              simp only [if_neg hk]
              cases hh : hidden l.rest[i].kind with
              | true =>
                  rw [List.filter_cons_of_neg (by simp [hh])]
                  exact hrest n
              | false =>
                  rw [List.filter_cons_of_pos (by simp [hh])]
                  cases n with
                  | zero => exact .answer _ hholds.1
                  | succ n => exact hrest n

theorem ahead {b : BufferedFeed} {l : TokenList} (h : Represents b l) (n : Nat) :
    Agrees Represents (b.ahead n) ((l.ahead n).map fun t => (t, l)) := by
  have hfrom := h.aheadFrom (fun k => b.isFree && k == .newline) (i := 0)
    (Nat.le_trans h.length_le (Nat.le_add_left ..)) n
  have hvisible : (l.rest.drop 0).filter (fun t => !(b.isFree && t.kind == .newline)) =
      l.visible := by
    unfold TokenList.visible
    rw [h.isFree_eq, List.drop_zero]
    cases l.isFree with
    | true => exact filter_not_line l.rest
    | false => exact List.filter_eq_self.mpr fun _ _ => rfl
  rw [hvisible] at hfrom
  exact hfrom

theorem beyondLines {b : BufferedFeed} {l : TokenList} (h : Represents b l) :
    Agrees Represents b.beyondLines (l.beyond.map fun t => (t.kind, l)) := by
  have hfrom := (h.aheadFrom (· == .newline) (i := 0)
    (Nat.le_trans h.length_le (Nat.le_add_left ..)) 0).map Token.kind
  rw [filter_not_line, map_answer] at hfrom
  unfold BufferedFeed.beyondLines
  generalize b.aheadFrom (· == .newline) b.bound 0 0 = x at hfrom ⊢
  cases x with
  | error e => exact hfrom
  | ok p => exact hfrom

/-! ### Taking -/

/-- What is in the buffer is taken from the list. -/
theorem pop {b : BufferedFeed} {l : TokenList} {t : Token} {ts : List Token}
    (h : Holds 0 b l) (hrest : l.rest = t :: ts) : Represents b.pop { l with rest := ts } := by
  obtain ⟨h, hbuffer⟩ := h
  have hpos : 0 < b.buffer.length := hbuffer (by rw [hrest]; exact Nat.succ_pos _)
  unfold BufferedFeed.pop
  cases h with
  | @reading r buffer layouts hne =>
      cases buffer with
      | nil => cases hpos
      | cons u buffer =>
          cases hrest
          exact .reading layouts fun v hv => hne v (List.mem_cons_of_mem _ hv)
  | ended r layouts hts heof =>
      cases hrest
      exact .ended r layouts (fun v hv => hts v (List.mem_cons_of_mem _ hv)) heof

/-- In front of an empty list stands the end or a fault. -/
theorem front_of_nil {b : BufferedFeed} {l : TokenList} (h : Represents b l) (hrest : l.rest = []) :
    (∃ e, b.buffered 0 = .error e ∧ l.last = .error e) ∨
      ∃ t b', b.buffered 0 = .ok (t, b') ∧ t.kind = .eof ∧ l.last = .ok t ∧ Represents b' l := by
  have hfound := h.buffered 0
  rw [hrest, nth_nil] at hfound
  generalize b.buffered 0 = x at hfound ⊢
  cases hlast : l.last with
  | error e =>
      rw [hlast] at hfound
      cases hfound
      exact .inl ⟨e, rfl, rfl⟩
  | ok t =>
      rw [hlast] at hfound
      cases hfound with
      | answer _ hholds => exact .inr ⟨t, _, rfl, h.last_eof hlast, rfl, hholds.1⟩

/-- In front of any other list stands its first token, and the buffer holds it. -/
theorem front_of_cons {b : BufferedFeed} {l : TokenList} {t : Token} {ts : List Token}
    (h : Represents b l) (hrest : l.rest = t :: ts) :
    ∃ b', b.buffered 0 = .ok (t, b') ∧ t.kind ≠ .eof ∧ Holds 0 b' l := by
  have hfound := h.buffered 0
  rw [hrest, nth_zero_cons] at hfound
  generalize b.buffered 0 = x at hfound ⊢
  cases hfound with
  | answer _ hholds => exact ⟨_, rfl, h.ne_eof t (hrest ▸ List.mem_cons_self), hholds⟩

theorem skipLinesWithin {b : BufferedFeed} {l : TokenList} (h : Represents b l) {steps : Nat}
    (hsteps : l.rest.length ≤ steps) :
    Agrees Represents ((b.skipLinesWithin steps).map fun b' => ((), b'))
      ((nth l.last l.afterLines.rest 0).map fun _ => ((), l.afterLines)) := by
  induction steps generalizing b l with
  | zero =>
      have hrest : l.rest = [] := List.eq_nil_of_length_eq_zero (Nat.le_zero.mp hsteps)
      unfold BufferedFeed.skipLinesWithin
      rw [TokenList.afterLines_of_nil hrest, hrest, nth_nil]
      obtain ⟨e, hb, hlast⟩ | ⟨t, b', hb, -, hlast, hnext⟩ := h.front_of_nil hrest
      · rw [hb, hlast]
        exact .fault e
      · rw [hb, hlast]
        exact .answer () hnext
  | succ steps ih =>
      unfold BufferedFeed.skipLinesWithin
      cases hrest : l.rest with
      | nil =>
          rw [TokenList.afterLines_of_nil hrest, hrest, nth_nil]
          obtain ⟨e, hb, hlast⟩ | ⟨t, b', hb, hk, hlast, hnext⟩ := h.front_of_nil hrest
          · rw [hb, hlast]
            exact .fault e
          · rw [hb, hlast]
            simp only [hk, reduceCtorEq, if_false]
            exact .answer () hnext
      | cons t ts =>
          obtain ⟨b', hb, -, hholds⟩ := h.front_of_cons hrest
          rw [hb]
          by_cases hk : t.kind = .newline
          · have hlength : ts.length ≤ steps := by
              rw [hrest, List.length_cons] at hsteps
              exact Nat.le_of_succ_le_succ hsteps
            have hskip := ih (pop hholds hrest) hlength
            rw [TokenList.afterLines_of_line hrest hk] at hskip
            simp only [if_pos hk]
            exact hskip
          · rw [TokenList.afterLines_of_ne hrest hk, hrest]
            simp only [if_neg hk]
            exact .answer () hholds.1

theorem skipLines {b : BufferedFeed} {l : TokenList} (h : Represents b l) :
    Agrees Represents (b.skipLines.map fun b' => ((), b'))
      (l.beyond.map fun _ => ((), l.afterLines)) := by
  rw [TokenList.beyond_eq]
  exact h.skipLinesWithin h.length_le

theorem takeFirst {b : BufferedFeed} {l : TokenList} (h : Represents b l) :
    Agrees Represents b.takeFirst
      ((nth l.last l.rest 0).map fun t => (t, { l with rest := l.rest.tail })) := by
  unfold BufferedFeed.takeFirst
  cases hrest : l.rest with
  | nil =>
      have hl : { l with rest := [] } = l := TokenList.ext hrest.symm rfl rfl
      rw [List.tail_nil, hl, nth_nil]
      obtain ⟨e, hb, hlast⟩ | ⟨t, b', hb, hk, hlast, hnext⟩ := h.front_of_nil hrest
      · rw [hb, hlast]
        exact .fault e
      · rw [hb, hlast]
        simp only [if_pos hk]
        exact .answer t hnext
  | cons t ts =>
      obtain ⟨b', hb, hk, hholds⟩ := h.front_of_cons hrest
      rw [hb]
      simp only [if_neg hk]
      exact .answer t (pop hholds hrest)

theorem take {b : BufferedFeed} {l : TokenList} (h : Represents b l) :
    Agrees Represents b.take ((l.ahead 0).map fun t => (t, l.past)) := by
  unfold BufferedFeed.take TokenList.past
  rw [TokenList.ahead_zero, h.isFree_eq]
  cases hfree : l.isFree with
  | false =>
      have hshown : l.shown = l := by rw [TokenList.shown, hfree]; rfl
      rw [hshown]
      exact h.takeFirst
  | true =>
      have hshown : l.shown = l.afterLines := by rw [TokenList.shown, hfree]; rfl
      have hskip := h.skipLines
      rw [TokenList.beyond_eq] at hskip
      rw [hshown]
      simp only [if_true]
      generalize b.skipLines = x at hskip ⊢
      cases x with
      | error e =>
          generalize nth l.last l.afterLines.rest 0 = y at hskip ⊢
          cases y with
          | error e' => cases hskip; exact .fault e
          | ok t => cases hskip
      | ok b' =>
          have hnext : Represents b' l.afterLines := by
            generalize nth l.last l.afterLines.rest 0 = y at hskip
            cases y with
            | error e' => cases hskip
            | ok t =>
                cases hskip with
                | answer _ hnext => exact hnext
          exact hnext.takeFirst

/-- **Every request to a buffered feed agrees with its list.** -/
theorem serve (request : Request) (b : BufferedFeed) (l : TokenList) (h : Represents b l) :
    Agrees Represents (BufferedFeed.serve request b) (l.serve request) := by
  cases request with
  | look =>
      have hahead := (h.ahead 0).map Answer.token
      rw [map_answer] at hahead
      exact hahead
  | lookKind =>
      have hahead := (h.ahead 0).map fun t => Answer.kind (Token.kind t)
      rw [map_answer] at hahead
      exact hahead
  | ahead n =>
      have hahead := (h.ahead n).map Answer.token
      rw [map_answer] at hahead
      exact hahead
  | take =>
      have htake := h.take.map Answer.token
      rw [map_answer] at htake
      exact htake
  | skipLines =>
      have hskip := h.skipLines.map fun _ => Answer.done
      rw [map_answer, map_answer] at hskip
      exact hskip
  | beyondLines =>
      have hbeyond := h.beyondLines.map Answer.kind
      rw [map_answer] at hbeyond
      exact hbeyond
  | enter layout => exact .answer _ (h.enter layout)
  | leave => exact .answer _ h.leave
  | inBrackets =>
      show Agrees Represents (.ok (Answer.flag (!b.layouts.isEmpty), b)) _
      rw [h.layouts_eq]
      exact .answer _ h

end Represents

/-- A buffered feed that has read nothing stands for the tokens of its text. -/
theorem represents_ofText (text : List Char) :
    Represents (.ofText text) (Feed.ofText text).tape.list :=
  .reading [] fun _ ht => by cases ht

/-- What a reader has left that finds the same over and over. -/
theorem Reader.remaining_of_recite {r : Reader} {last : Except LexError Token}
    (hlast : ∀ n, r.recite n = List.replicate n last) (heof : ∀ t, last = .ok t → t.kind = .eof) :
    r.remaining = ([], last) := by
  have hanswer : r.answer = last := by
    have hone := hlast 1
    simp only [recite, List.replicate_succ, List.replicate_zero] at hone
    exact List.head_eq_of_cons_eq hone
  subst hanswer
  cases hn : r.next with
  | error e => rw [remaining_error hn, answer_error hn]
  | ok p =>
      obtain ⟨t, after⟩ := p
      rw [answer_ok hn]
      exact remaining_eof hn (heof t (answer_ok hn))

theorem Recites.last_eof {text : List Char} {ts : List Token} {last : Except LexError Token}
    (h : Recites text ts last) {t : Token} (hlast : last = .ok t) : t.kind = .eof := by
  cases h with
  | ended h hk => cases hlast; exact hk
  | fault => cases hlast

/-- **A buffered feed, a feed and a plain list give the same answers.** The list is that of the tokens
of the text without comments, with the end of the input or the first fault behind them. Whatever is
asked for, one request after the other, the answers are the same up to the first that fails, and it
fails with the same fault. -/
theorem buffered_feed_refines_list (text : List Char) :
    ∃ ts last, Recites text ts last ∧ ∀ requests : List Request,
      answers BufferedFeed.serve requests (.ofText text) =
          answers TokenList.serve requests ⟨withoutComments ts, last, []⟩ ∧
        answers Feed.serve requests (.ofText text) =
          answers TokenList.serve requests ⟨withoutComments ts, last, []⟩ := by
  obtain ⟨ts, last, r, hrecites, hreaches, hlast⟩ := exists_recites text
  have hlist : (Feed.ofText text).tape.list = ⟨withoutComments ts, last, []⟩ := by
    have hleft := Reader.remaining_of_reaches hreaches
    rw [Reader.remaining_of_recite hlast fun t => hrecites.last_eof, List.append_nil] at hleft
    apply TokenList.ext
    · exact congrArg Prod.fst hleft
    · exact congrArg Prod.snd hleft
    · rfl
  refine ⟨ts, last, hrecites, ?_⟩
  intro requests
  rw [← hlist]
  constructor
  · exact answers_eq Represents.serve requests (represents_ofText text)
  · exact answers_eq Feed.serve_agrees requests rfl

/-- Line feeds that have been read ahead come to light again when brackets are opened that do not
ignore them. -/
example :
    answers BufferedFeed.serve
      [.enter .free, .ahead 1, .enter .lined, .take, .take, .leave, .take, .look]
      (.ofText "x # note\n\ny".toList) =
    [.ok .done, .ok (.token ⟨.ident, "y", ⟨3, 1⟩, 10⟩), .ok .done,
      .ok (.token ⟨.ident, "x", ⟨1, 1⟩, 0⟩), .ok (.token ⟨.newline, "\n", ⟨1, 9⟩, 8⟩), .ok .done,
      .ok (.token ⟨.ident, "y", ⟨3, 1⟩, 10⟩), .ok (.token ⟨.eof, "", ⟨3, 2⟩, 11⟩)] := by
  rfl

/-! ## Parses on a buffered feed -/

namespace Represents

variable {b : BufferedFeed} {s : Tape}

theorem ahead_tape (h : Represents b s.list) (n : Nat) :
    Agrees Represents (b.ahead n) ((s.ahead n).map fun t => (t, s.list)) := by
  rw [Tape.ahead_list]
  exact h.ahead n

theorem take_tape (h : Represents b s.list) :
    Agrees Represents b.take (s.front.map fun t => (t, s.past.list)) := by
  have hfront : s.front = s.list.ahead 0 := s.ahead_list 0
  rw [hfront, Tape.list_past]
  exact h.take

theorem skipLines_tape (h : Represents b s.list) :
    Agrees Represents (b.skipLines.map fun b' => ((), b'))
      (s.beyond.map fun _ => ((), s.afterLines.list)) := by
  rw [Tape.beyond_list]
  exact h.skipLines

theorem beyondLines_tape (h : Represents b s.list) :
    Agrees Represents b.beyondLines (s.beyond.map fun t => (t.kind, s.list)) := by
  rw [Tape.beyond_list]
  exact h.beyondLines

end Represents

/-- A parse does on a buffered feed what it does on a tape with the same list. -/
theorem Parse.runBuffered_play {α : Type} (p : Parse α) {b : BufferedFeed} {s : Tape}
    (h : Represents b s.list) :
    (p.runBuffered b).map Prod.fst = (p.play s).map Prod.fst := by
  induction p generalizing b s with
  | done a => rfl
  | reject expected =>
      unfold runBuffered play
      rw [show s.front = s.ahead 0 from rfl]
      obtain ⟨e, hb, hs⟩ | ⟨t, b', hs, hb, -⟩ := (h.ahead_tape 0).cases_map
      · rw [hb, hs]; rfl
      · rw [hb, hs]; rfl
  | tooDeep =>
      unfold runBuffered play
      rw [show s.front = s.ahead 0 from rfl]
      obtain ⟨e, hb, hs⟩ | ⟨t, b', hs, hb, -⟩ := (h.ahead_tape 0).cases_map
      · rw [hb, hs]; rfl
      · rw [hb, hs]; rfl
  | ahead n k ih =>
      unfold runBuffered play
      obtain ⟨e, hb, hs⟩ | ⟨t, b', hs, hb, hnext⟩ := (h.ahead_tape n).cases_map
      · rw [hb, hs]; rfl
      · rw [hb, hs]
        exact ih t hnext
  | take k ih =>
      unfold runBuffered play
      obtain ⟨e, hb, hs⟩ | ⟨t, b', hs, hb, hnext⟩ := h.take_tape.cases_map
      · rw [hb, hs]; rfl
      · rw [hb, hs]
        exact ih t hnext
  | skipLines k ih =>
      have hskip := h.skipLines_tape
      unfold runBuffered play
      generalize b.skipLines = x at hskip ⊢
      obtain ⟨e, hb, hs⟩ | ⟨t, b', hs, hb, hnext⟩ := hskip.cases_map
      · cases x with
        | error e' => cases hb; rw [hs]; rfl
        | ok b' => cases hb
      · cases x with
        | error e' => cases hb
        | ok b'' =>
            cases hb
            rw [hs]
            exact ih () hnext
  | beyondLines k ih =>
      unfold runBuffered play
      obtain ⟨e, hb, hs⟩ | ⟨t, b', hs, hb, hnext⟩ := h.beyondLines_tape.cases_map
      · rw [hb, hs]; rfl
      · rw [hb, hs]
        exact ih t.kind hnext
  | enter layout k ih => exact ih () (s := s.enter layout) (h.enter layout)
  | leave k ih => exact ih () (s := s.leave) h.leave
  | inBrackets k ih =>
      have hlayouts : b.inBrackets = s.inBrackets := by
        unfold BufferedFeed.inBrackets Tape.inBrackets
        rw [h.layouts_eq]
        rfl
      unfold runBuffered play
      rw [hlayouts]
      exact ih _ h

/-- **A parse gives the same on a buffered feed as on a feed**: the same result, or the same
refusal. -/
theorem Parse.runBuffered_ofText {α : Type} (p : Parse α) (text : List Char) :
    (p.runBuffered (.ofText text)).map Prod.fst = (p.run (.ofText text)).map Prod.fst := by
  rw [p.runBuffered_play (represents_ofText text), p.play_tape]
  cases p.run (.ofText text) <;> rfl

end RSource
