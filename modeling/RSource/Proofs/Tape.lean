import RSource.Grammar.Statement
import RSource.Proofs.Remaining

/-!
# Parses on a list of tokens

A feed reads its tokens when they are asked for. A tape has them all, so what a parse does to it is
said in terms of lists.

* `Tape` — the tokens left, how they end, and the layouts of the open brackets.
* `Feed.tape` — the tape of a feed.
* `Parse.play` — carries a parse out on a tape.
* `Parse.play_tape` — **a parse does the same on a feed and on its tape**.
* `Parse.play_bind_ok` and the like — what it means that a parse succeeds on a tape.
-/

namespace RSource

/-- The tokens a parse has left without comments, how they end, and the layouts of the open
brackets, the innermost first. -/
@[ext] structure Tape where
  tokens : List Token
  ending : Except LexError Token
  layouts : List Layout
  spelled : ∀ t ∈ tokens, t.IsSpelled
  ending_eof : ∀ t, ending = .ok t → t.kind = .eof

namespace Tape

/-- The tape from a later place on. -/
def cut (s : Tape) (ts : List Token) (h : ts <:+ s.tokens) : Tape :=
  { s with tokens := ts, spelled := fun t ht => s.spelled t (h.mem ht) }

/-- The next token, whatever it is. -/
def head (s : Tape) : Except LexError Token :=
  match s.tokens with
  | t :: _ => .ok t
  | [] => s.ending

/-- The tape past the next token. At its end it stays. -/
def tail (s : Tape) : Tape := s.cut s.tokens.tail (List.tail_suffix _)

/-- The tape past all line feeds in front. -/
def afterLines (s : Tape) : Tape :=
  s.cut (s.tokens.dropWhile (·.kind == .newline)) (List.dropWhile_suffix _)

/-- Whether the innermost brackets ignore line feeds. -/
def isFree (s : Tape) : Bool := s.layouts.head? == some .free

/-- The tape from the next visible token on. -/
def shown (s : Tape) : Tape := if s.isFree then s.afterLines else s

/-- The next visible token. -/
def front (s : Tape) : Except LexError Token := s.shown.head

/-- The tape past the next visible token. -/
def past (s : Tape) : Tape := s.shown.tail

/-- The next token that is no line feed. -/
def beyond (s : Tape) : Except LexError Token := s.afterLines.head

/-- The `n`th visible token ahead, from zero; the end of the input if that comes first. -/
def ahead : Nat → Tape → Except LexError Token
  | 0, s => s.front
  | n + 1, s =>
      match s.front with
      | .error e => .error e
      | .ok t => if t.kind = .eof then .ok t else ahead n s.past

/-- Inside one more pair of brackets. -/
def enter (s : Tape) (l : Layout) : Tape := { s with layouts := l :: s.layouts }

/-- Outside the innermost brackets. -/
def leave (s : Tape) : Tape := { s with layouts := s.layouts.tail }

/-- Whether any brackets are open. -/
def inBrackets (s : Tape) : Bool := !s.layouts.isEmpty

/-- The token that decides whether an `else` goes on with the form just read: outside all brackets
a line feed ends it. -/
def clause (s : Tape) : Except LexError Token := if s.inBrackets then s.beyond else s.front

section Fields

variable (s : Tape) (l : Layout)

@[simp] theorem tail_tokens : s.tail.tokens = s.tokens.tail := rfl
@[simp] theorem tail_ending : s.tail.ending = s.ending := rfl
@[simp] theorem tail_layouts : s.tail.layouts = s.layouts := rfl
@[simp] theorem afterLines_tokens :
    s.afterLines.tokens = s.tokens.dropWhile (·.kind == .newline) := rfl
@[simp] theorem afterLines_ending : s.afterLines.ending = s.ending := rfl
@[simp] theorem afterLines_layouts : s.afterLines.layouts = s.layouts := rfl
@[simp] theorem enter_tokens : (s.enter l).tokens = s.tokens := rfl
@[simp] theorem enter_ending : (s.enter l).ending = s.ending := rfl
@[simp] theorem enter_layouts : (s.enter l).layouts = l :: s.layouts := rfl
@[simp] theorem leave_tokens : s.leave.tokens = s.tokens := rfl
@[simp] theorem leave_ending : s.leave.ending = s.ending := rfl
@[simp] theorem leave_layouts : s.leave.layouts = s.layouts.tail := rfl

@[simp] theorem shown_ending : s.shown.ending = s.ending := by unfold shown; split <;> rfl
@[simp] theorem shown_layouts : s.shown.layouts = s.layouts := by unfold shown; split <;> rfl
@[simp] theorem past_ending : s.past.ending = s.ending := by simp [past]
@[simp] theorem past_layouts : s.past.layouts = s.layouts := by simp [past]

theorem shown_tokens : s.shown.tokens =
    if s.isFree then s.tokens.dropWhile (·.kind == .newline) else s.tokens := by
  unfold shown; split <;> rfl

end Fields

theorem past_tokens (s : Tape) : s.past.tokens = s.shown.tokens.tail := rfl

theorem shown_suffix (s : Tape) : s.shown.tokens <:+ s.tokens := by
  rw [shown_tokens]
  split
  · exact List.dropWhile_suffix _
  · exact List.suffix_refl _

theorem past_suffix (s : Tape) : s.past.tokens <:+ s.tokens :=
  (List.tail_suffix _).trans s.shown_suffix

theorem afterLines_suffix (s : Tape) : s.afterLines.tokens <:+ s.tokens := List.dropWhile_suffix _

theorem head_cons {s : Tape} {t : Token} {ts : List Token} (h : s.tokens = t :: ts) :
    s.head = .ok t := by
  rw [head, h]

theorem head_nil {s : Tape} (h : s.tokens = []) : s.head = s.ending := by
  rw [head, h]

/-- Where the end of the input is next, no tokens are left. -/
theorem tokens_of_end {s : Tape} {t : Token} (ht : s.head = .ok t) (hk : t.kind = .eof) :
    s.tokens = [] := by
  cases hs : s.tokens with
  | nil => rfl
  | cons u us =>
      rw [head_cons hs] at ht
      cases ht
      exact absurd hk (s.spelled t (by rw [hs]; exact List.mem_cons_self ..)).ne_eof

end Tape

/-- The tape of a feed. -/
def Feed.tape (s : Feed) : Tape :=
  ⟨s.reader.remaining.1, s.reader.remaining.2, s.layouts, s.reader.remaining_spelled,
    s.reader.remaining_ending⟩

/-! ## What a feed answers -/

theorem dropWhile_hidden {ts : List Token} (free : Bool) (h : ∀ t ∈ ts, t.kind ≠ .comment) :
    ts.dropWhile (fun t => t.kind == .comment || (free && t.kind == .newline)) =
      if free then ts.dropWhile (·.kind == .newline) else ts := by
  induction ts with
  | nil => simp
  | cons t ts ih =>
      have ht := h t (List.mem_cons_self ..)
      have ih := ih (fun u hu => h u (List.mem_cons_of_mem _ hu))
      cases free with
      | true =>
          by_cases hk : t.kind = .newline
          · simpa [hk] using ih
          · simp [hk, ht]
      | false => simp [ht]

namespace Feed

theorem dropWhile_hides (s : Feed) :
    s.reader.remaining.1.dropWhile (s.hides ·.kind) = s.tape.shown.tokens := by
  have hd := dropWhile_hidden s.isFree
    (fun t ht => (s.reader.remaining_spelled t ht).ne_comment)
  simp only [hides]
  rw [hd, Tape.shown_tokens]
  rfl

/-- The next visible token of a feed and what is left behind it are those of its tape. -/
theorem nextShown_tape (s : Feed) :
    (∃ e, s.reader.nextShown s.hides = .error e ∧ s.tape.front = .error e) ∨
    ∃ t after, s.reader.nextShown s.hides = .ok (t, after) ∧ s.tape.front = .ok t ∧
      Feed.tape ⟨after, s.layouts⟩ = s.tape.past := by
  have hn := Reader.nextShown_remaining s.hides rfl (by simp [hides]) s.reader
  rw [dropWhile_hides] at hn
  have hend : s.tape.ending = s.reader.remaining.2 := rfl
  split at hn
  · rename_i t ts hcons
    cases hr : s.reader.nextShown s.hides with
    | error e => rw [hr] at hn; cases hn
    | ok p =>
        rw [hr] at hn
        simp only [Except.map, Except.ok.injEq, Prod.mk.injEq] at hn
        have hpast : s.tape.past.tokens = ts := by simp [Tape.past, hcons]
        refine Or.inr ⟨t, p.2, by rw [← hn.1], Tape.head_cons hcons, Tape.ext ?_ ?_ ?_⟩
        · rw [hpast]; simp [tape, hn.2]
        · simp [tape, hn.2]
        · simp [tape]
  · rename_i hnil
    have hf : s.tape.front = s.reader.remaining.2 := by
      rw [Tape.front, Tape.head_nil hnil, Tape.shown_ending, hend]
    cases hr : s.reader.nextShown s.hides with
    | error e =>
        cases he : s.reader.remaining.2 with
        | error e' =>
            rw [hr, he] at hn
            cases hn
            exact Or.inl ⟨e, rfl, hf.trans he⟩
        | ok t => rw [hr, he] at hn; cases hn
    | ok p =>
        cases he : s.reader.remaining.2 with
        | error e' => rw [hr, he] at hn; cases hn
        | ok t =>
            rw [hr, he] at hn
            simp only [Except.map, Except.ok.injEq, Prod.mk.injEq] at hn
            have hpast : s.tape.past.tokens = [] := by simp [Tape.past, hnil]
            refine Or.inr ⟨t, p.2, by rw [← hn.1], hf.trans he, Tape.ext ?_ ?_ ?_⟩
            · rw [hpast]; simp [tape, hn.2]
            · simp [tape, hn.2, he]
            · simp [tape]

theorem ahead_tape (s : Feed) (n : Nat) : s.ahead n = s.tape.ahead n := by
  rw [ahead]
  induction n generalizing s with
  | zero =>
      rw [Reader.ahead, Tape.ahead]
      rcases nextShown_tape s with ⟨e, hr, hf⟩ | ⟨t, after, hr, hf, _⟩ <;> rw [hr, hf]
  | succ n ih =>
      rw [Reader.ahead, Tape.ahead]
      rcases nextShown_tape s with ⟨e, hr, hf⟩ | ⟨t, after, hr, hf, hp⟩ <;> rw [hr, hf]
      simp only
      split
      · rfl
      · rw [← hp]
        exact ih ⟨after, s.layouts⟩

theorem front_tape (s : Feed) : s.front = s.tape.front := ahead_tape s 0

theorem take_tape (s : Feed) :
    s.take.map (fun p => (p.1, p.2.tape)) = s.tape.front.map (fun t => (t, s.tape.past)) := by
  rw [take]
  rcases nextShown_tape s with ⟨e, hr, hf⟩ | ⟨t, after, hr, hf, hp⟩
  · rw [hr, hf]; rfl
  · rw [hr, hf, ← hp]; rfl

theorem skipLines_tape (s : Feed) :
    s.skipLines.map tape = s.tape.beyond.map (fun _ => s.tape.afterLines) := by
  have hs := s.reader.skipLines_remaining
  rw [skipLines]
  cases hd : s.reader.remaining.1.dropWhile (·.kind == .newline) with
  | cons t ts =>
      rw [hd] at hs
      have hb : s.tape.beyond = .ok t := Tape.head_cons hd
      cases hr : s.reader.skipLines with
      | error e => rw [hr] at hs; cases hs
      | ok after =>
          rw [hr] at hs
          simp only [Except.map, Except.ok.injEq] at hs
          rw [hb]
          refine congrArg Except.ok (Tape.ext ?_ ?_ ?_)
          · simp [tape, hs, hd]
          · simp [tape, hs]
          · simp [tape]
  | nil =>
      rw [hd] at hs
      have hb : s.tape.beyond = s.reader.remaining.2 := Tape.head_nil hd
      rw [hb]
      cases he : s.reader.remaining.2 with
      | error e =>
          rw [he] at hs
          cases hr : s.reader.skipLines with
          | error e' => rw [hr] at hs; cases hs; rfl
          | ok after => rw [hr] at hs; cases hs
      | ok t =>
          rw [he] at hs
          cases hr : s.reader.skipLines with
          | error e' => rw [hr] at hs; cases hs
          | ok after =>
              rw [hr] at hs
              simp only [Except.map, Except.ok.injEq] at hs
              refine congrArg Except.ok (Tape.ext ?_ ?_ ?_)
              · simp [tape, hs, hd]
              · simp [tape, hs, he]
              · simp [tape]

theorem beyondLines_tape (s : Feed) : s.beyondLines = s.tape.beyond.map Token.kind := by
  have hb := nextShown_tape ⟨s.reader, [.free]⟩
  have hh : Feed.hides ⟨s.reader, [.free]⟩ = fun k => k == .comment || k == .newline := by
    funext k; simp [hides, isFree]
  rw [hh] at hb
  have hf : (Feed.tape ⟨s.reader, [.free]⟩).front = s.tape.beyond := rfl
  rw [hf] at hb
  rw [beyondLines]
  rcases hb with ⟨e, hr, hb⟩ | ⟨t, after, hr, hb, _⟩
  · simp only [hr, hb]; rfl
  · simp only [hr, hb]; rfl

end Feed

namespace Parse

variable {α β : Type}

/-- Carries a parse out on a tape. -/
@[simp] def play : Parse α → Tape → Except Error (α × Tape)
  | done a, s => .ok (a, s)
  | reject expected, s =>
      match s.front with
      | .error e => .error (.lexical e)
      | .ok t => .error (.unexpected (.ofToken t expected))
  | tooDeep, s =>
      match s.front with
      | .error e => .error (.lexical e)
      | .ok t => .error (.tooDeep t.loc)
  | ahead n k, s =>
      match s.ahead n with
      | .error e => .error (.lexical e)
      | .ok t => (k t).play s
  | take k, s =>
      match s.front with
      | .error e => .error (.lexical e)
      | .ok t => (k t).play s.past
  | skipLines k, s =>
      match s.beyond with
      | .error e => .error (.lexical e)
      | .ok _ => (k ()).play s.afterLines
  | beyondLines k, s =>
      match s.beyond with
      | .error e => .error (.lexical e)
      | .ok t => (k t.kind).play s
  | enter layout k, s => (k ()).play (s.enter layout)
  | leave k, s => (k ()).play s.leave
  | inBrackets k, s => (k s.inBrackets).play s

/-- **A parse does the same on a feed and on its tape.** -/
theorem play_tape (p : Parse α) (s : Feed) :
    p.play s.tape = (p.run s).map (fun r => (r.1, r.2.tape)) := by
  induction p generalizing s with
  | done a => rfl
  | reject expected => simp only [play, run, ← Feed.front_tape]; cases s.front <;> rfl
  | tooDeep => simp only [play, run, ← Feed.front_tape]; cases s.front <;> rfl
  | ahead n k ih =>
      simp only [play, run, ← Feed.ahead_tape]
      cases s.ahead n with
      | error e => rfl
      | ok t => exact ih t s
  | take k ih =>
      have ht := Feed.take_tape s
      simp only [play, run]
      cases hf : s.tape.front with
      | error e =>
          rw [hf] at ht
          cases hr : s.take with
          | error e' => rw [hr] at ht; cases ht; rfl
          | ok r => rw [hr] at ht; cases ht
      | ok t =>
          rw [hf] at ht
          cases hr : s.take with
          | error e' => rw [hr] at ht; cases ht
          | ok r =>
              rw [hr] at ht
              simp only [Except.map, Except.ok.injEq, Prod.mk.injEq] at ht
              simp only [← ht.1, ← ht.2]
              exact ih r.1 r.2
  | skipLines k ih =>
      have ht := Feed.skipLines_tape s
      simp only [play, run]
      cases hf : s.tape.beyond with
      | error e =>
          rw [hf] at ht
          cases hr : s.skipLines with
          | error e' => rw [hr] at ht; cases ht; rfl
          | ok r => rw [hr] at ht; cases ht
      | ok t =>
          rw [hf] at ht
          cases hr : s.skipLines with
          | error e' => rw [hr] at ht; cases ht
          | ok r =>
              rw [hr] at ht
              simp only [Except.map, Except.ok.injEq] at ht
              simp only [← ht]
              exact ih () r
  | beyondLines k ih =>
      simp only [play, run, Feed.beyondLines_tape]
      cases s.tape.beyond with
      | error e => rfl
      | ok t => exact ih t.kind s
  | enter layout k ih => exact ih () (s.enter layout)
  | leave k ih => exact ih () s.leave
  | inBrackets k ih => exact ih _ s

/-- What a parse reads off a feed it reads off the tape. -/
theorem play_of_run {p : Parse α} {s s' : Feed} {a : α} (h : p.run s = .ok (a, s')) :
    p.play s.tape = .ok (a, s'.tape) := by
  rw [play_tape, h]
  rfl

/-! ## Success on a tape -/

variable {s s' : Tape}

theorem play_bind (p : Parse α) (f : α → Parse β) (s : Tape) :
    (p.bind f).play s =
      match p.play s with
      | .error e => .error e
      | .ok (a, s') => (f a).play s' := by
  induction p generalizing s with
  | done a => rfl
  | reject expected => simp only [bind, play]; cases s.front <;> rfl
  | tooDeep => simp only [bind, play]; cases s.front <;> rfl
  | ahead n k ih =>
      simp only [bind, play]
      cases s.ahead n with
      | error e => rfl
      | ok t => exact ih t s
  | take k ih =>
      simp only [bind, play]
      cases s.front with
      | error e => rfl
      | ok t => exact ih t s.past
  | skipLines k ih =>
      simp only [bind, play]
      cases s.beyond with
      | error e => rfl
      | ok t => exact ih () s.afterLines
  | beyondLines k ih =>
      simp only [bind, play]
      cases s.beyond with
      | error e => rfl
      | ok t => exact ih t.kind s
  | enter layout k ih => exact ih () _
  | leave k ih => exact ih () _
  | inBrackets k ih => exact ih _ s

/-- A sequence succeeds if both parts do. -/
theorem play_bind_ok {p : Parse α} {f : α → Parse β} {r : β × Tape} :
    (p.bind f).play s = .ok r ↔ ∃ a s₁, p.play s = .ok (a, s₁) ∧ (f a).play s₁ = .ok r := by
  rw [play_bind]
  constructor
  · intro h
    split at h
    · cases h
    · rename_i a s₁ hp
      exact ⟨a, s₁, hp, h⟩
  · rintro ⟨a, s₁, hp, h⟩
    rw [hp]
    exact h

theorem play_look_ok {f : Token → Parse α} {r : α × Tape} :
    (look.bind f).play s = .ok r ↔ ∃ t, s.front = .ok t ∧ (f t).play s = .ok r := by
  rw [play_bind, look, play, Tape.ahead]
  cases s.front <;> simp [play]

theorem play_lookSecond_ok {f : Token → Parse α} {r : α × Tape} :
    (lookSecond.bind f).play s = .ok r ↔ ∃ t, s.ahead 1 = .ok t ∧ (f t).play s = .ok r := by
  rw [play_bind, lookSecond, play]
  cases s.ahead 1 <;> simp [play]

/-- The second token ahead of one that may name an argument is the one behind it. -/
theorem play_lookSecond_of_argName {t : Token} {n : ArgName} {f : Token → Parse α} {r : α × Tape}
    (ht : s.front = .ok t) (hn : ArgName.ofToken? t = some n) :
    (lookSecond.bind f).play s = .ok r ↔ ∃ u, s.past.front = .ok u ∧ (f u).play s = .ok r := by
  have hk : t.kind ≠ .eof := fun hk => by simp [ArgName.ofToken?, hk] at hn
  rw [play_lookSecond_ok, Tape.ahead, ht]
  simp only [if_neg hk, Tape.ahead]

theorem play_drop_ok {r : Unit × Tape} :
    drop.play s = .ok r ↔ (∃ t, s.front = .ok t) ∧ ((), s.past) = r := by
  rw [drop, play]
  cases s.front <;> simp [play]

theorem play_drop_bind_ok {f : Unit → Parse α} {r : α × Tape} :
    (drop.bind f).play s = .ok r ↔ (∃ t, s.front = .ok t) ∧ (f ()).play s.past = .ok r := by
  rw [play_bind, drop, play]
  cases s.front <;> simp [play]

theorem play_dropLines_ok {f : Unit → Parse α} {r : α × Tape} :
    (dropLines.bind f).play s = .ok r ↔
      (∃ t, s.beyond = .ok t) ∧ (f ()).play s.afterLines = .ok r := by
  rw [play_bind, dropLines, play]
  cases s.beyond <;> simp [play]

theorem play_opened_ok {l : Layout} {f : Unit → Parse α} {r : α × Tape} :
    ((opened l).bind f).play s = .ok r ↔ (f ()).play (s.enter l) = .ok r := by
  rw [play_bind, opened, play]
  rfl

theorem play_closed_ok {f : Unit → Parse α} {r : α × Tape} :
    (closed.bind f).play s = .ok r ↔ (f ()).play s.leave = .ok r := by
  rw [play_bind, closed, play]
  rfl

theorem play_elseFollows (f : Bool → Parse α) (s : Tape) :
    (Grammar.elseFollows.bind f).play s =
      match s.clause with
      | .error e => .error (.lexical e)
      | .ok t => (f (t.kind == .elseWord)).play s := by
  rw [play_bind, Grammar.elseFollows, bind_eq_bind, play_bind, bracketed, play, play, Tape.clause]
  cases s.inBrackets with
  | true =>
      simp only [if_true, bind_eq_bind, pure_eq_done, play_bind, kindBeyondLines, play]
      cases s.beyond <;> rfl
  | false =>
      simp only [Bool.false_eq_true, if_false, bind_eq_bind, pure_eq_done, play_bind, look, play,
        Tape.ahead]
      cases s.front <;> rfl

theorem play_elseFollows_ok {f : Bool → Parse α} {r : α × Tape} :
    (Grammar.elseFollows.bind f).play s = .ok r ↔
      ∃ t, s.clause = .ok t ∧ (f (t.kind == .elseWord)).play s = .ok r := by
  rw [play_elseFollows]
  cases s.clause <;> simp

theorem play_reject_ne_ok {expected : List Continuation} {r : α × Tape} :
    ¬ (reject expected : Parse α).play s = .ok r := by
  rw [play]
  cases s.front <;> simp

theorem play_outOfBound_ne_ok {r : α × Tape} : ¬ (outOfBound : Parse α).play s = .ok r :=
  play_reject_ne_ok

theorem play_tooDeep_ne_ok {r : α × Tape} : ¬ (tooDeep : Parse α).play s = .ok r := by
  rw [play]
  cases s.front <;> simp

theorem play_demand_ok {kind : TokenKind} {f : Token → Parse α} {r : α × Tape} :
    ((demand kind).bind f).play s = .ok r ↔
      ∃ t, s.front = .ok t ∧ t.kind = kind ∧ (f t).play s.past = .ok r := by
  rw [play_bind_ok]
  constructor
  · rintro ⟨t, s₁, hd, hf⟩
    rw [demand, bind_eq_bind, play_look_ok] at hd
    obtain ⟨u, hu, hd⟩ := hd
    split at hd
    · rename_i hk
      rw [accept, play, hu] at hd
      cases hd
      exact ⟨_, hu, hk, hf⟩
    · exact absurd hd play_reject_ne_ok
  · rintro ⟨t, ht, hk, hf⟩
    refine ⟨t, s.past, ?_, hf⟩
    rw [demand, bind_eq_bind, play_look_ok]
    refine ⟨t, ht, ?_⟩
    rw [if_pos hk, accept, play, ht]
    rfl

end Parse

end RSource
