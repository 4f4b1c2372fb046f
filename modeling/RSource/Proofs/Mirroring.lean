import RSource.Proofs.Progress
import RSource.Proofs.Scope

/-!
# Layouts and open brackets

A parse enters and leaves brackets by requests of their own, beside those that take the brackets.
Wherever it asks for a token, the two agree.

* `Parse.asks` — the feeds of which a parse asks for tokens, up to its end.
* `Bracket.behind`, `openedBy` — the brackets that are open behind one more token, and behind some
  tokens, each closed by its own kind alone.
* `Feed.Stands`, `Feed.Mirrors` — the tokens taken leave such brackets open, and the layouts are
  those of the brackets.
* `Feed.Stands.take`, `Feed.Stands.skipLines` — one request.
* `Parse.Heeds`, `Parse.Heeds.asks` — what must hold of a feed for a parse to ask only of feeds of
  some kind, and **that it does**.
* `Parse.Minds`, `Parse.Keeps` — a parse asks only where layouts mirror brackets, and ends in such
  brackets, or in those in which it started.
* `Parse.minds_look`, `Parse.minds_demand`, `Parse.keeps_enclosed` and the like — how such parses
  are put together.
* `Parse.layouts_of_keeps` — **the layouts are found again as they were**.
-/

namespace RSource

/-! ## What a parse asks -/

namespace Parse

variable {α β : Type}

/-- What is asked behind a request, which may be refused. -/
def asksBehind (answer : Except LexError α) (k : α → List Feed) : List Feed :=
  match answer with
  | .error _ => []
  | .ok a => k a

/-- The feeds of which a parse asks for tokens, one after the other, up to its result, its refusal
or a fault. -/
def asks : Parse α → Feed → List Feed
  | done _, _ => []
  | reject _, s | tooDeep, s => [s]
  | ahead n k, s => s :: asksBehind (s.ahead n) fun t => (k t).asks s
  | take k, s => s :: asksBehind s.take fun r => (k r.1).asks r.2
  | skipLines k, s => s :: asksBehind s.skipLines fun s' => (k ()).asks s'
  | beyondLines k, s => s :: asksBehind s.beyondLines fun kind => (k kind).asks s
  | enter layout k, s => (k ()).asks (s.enter layout)
  | leave k, s => (k ()).asks s.leave
  | inBrackets k, s => (k s.inBrackets).asks s

/-- What must hold of a feed for a parse to ask only where `I` holds, and to end where `Q` does. -/
def Heeds (I : Feed → Prop) (Q : α → Feed → Prop) : Parse α → Feed → Prop
  | done a, s => Q a s
  | reject _, s | tooDeep, s => I s
  | ahead n k, s => I s ∧ ∀ t, s.ahead n = .ok t → Heeds I Q (k t) s
  | take k, s => I s ∧ ∀ t s', s.take = .ok (t, s') → Heeds I Q (k t) s'
  | skipLines k, s => I s ∧ ∀ s', s.skipLines = .ok s' → Heeds I Q (k ()) s'
  | beyondLines k, s => I s ∧ ∀ kind, s.beyondLines = .ok kind → Heeds I Q (k kind) s
  | enter layout k, s => Heeds I Q (k ()) (s.enter layout)
  | leave k, s => Heeds I Q (k ()) s.leave
  | inBrackets k, s => Heeds I Q (k s.inBrackets) s

variable {I : Feed → Prop} {Q : β → Feed → Prop}

/-- A sequence asks and ends as it should if its first part ends where the rest may start. -/
theorem Heeds.bind {R : α → Feed → Prop} {p : Parse α} {f : α → Parse β} {s : Feed}
    (h : p.Heeds I R s) (hf : ∀ a s', R a s' → (f a).Heeds I Q s') : (p.bind f).Heeds I Q s := by
  induction p generalizing s with
  | done a => exact hf a s h
  | reject expected => exact h
  | tooDeep => exact h
  | ahead n k ih => exact ⟨h.1, fun t ht => ih t (h.2 t ht)⟩
  | take k ih => exact ⟨h.1, fun t s' ht => ih t (h.2 t s' ht)⟩
  | skipLines k ih => exact ⟨h.1, fun s' hs => ih () (h.2 s' hs)⟩
  | beyondLines k ih => exact ⟨h.1, fun kind hk => ih kind (h.2 kind hk)⟩
  | enter layout k ih => exact ih () h
  | leave k ih => exact ih () h
  | inBrackets k ih => exact ih _ h

/-- **What such a parse comes to is as `Q` says.** -/
theorem Heeds.run {p : Parse β} {s s' : Feed} {b : β} (h : p.Heeds I Q s)
    (hp : p.run s = .ok (b, s')) : Q b s' := by
  induction p generalizing s with
  | done a =>
      cases hp
      exact h
  | reject expected | tooDeep =>
      rw [Parse.run] at hp
      split at hp <;> cases hp
  | ahead n k ih =>
      rw [Parse.run] at hp
      split at hp
      · cases hp
      · exact ih _ (h.2 _ ‹_›) hp
  | take k ih =>
      rw [Parse.run] at hp
      split at hp
      · cases hp
      · exact ih _ (h.2 _ _ ‹_›) hp
  | skipLines k ih =>
      rw [Parse.run] at hp
      split at hp
      · cases hp
      · exact ih _ (h.2 _ ‹_›) hp
  | beyondLines k ih =>
      rw [Parse.run] at hp
      split at hp
      · cases hp
      · exact ih _ (h.2 _ ‹_›) hp
  | enter layout k ih => exact ih () h hp
  | leave k ih => exact ih () h hp
  | inBrackets k ih => exact ih _ h hp

theorem forall_mem_asksBehind {answer : Except LexError α} {k : α → List Feed} {s : Feed}
    (hs : I s) (hk : ∀ a, answer = .ok a → ∀ r ∈ k a, I r) :
    ∀ r ∈ s :: asksBehind answer k, I r := by
  refine List.forall_mem_cons.mpr ⟨hs, fun r hr => ?_⟩
  cases answer with
  | error e => exact (List.not_mem_nil hr).elim
  | ok a => exact hk a rfl r hr

/-- **Whatever such a parse asks, it asks where `I` holds.** -/
theorem Heeds.asks {p : Parse β} {s : Feed} (h : p.Heeds I Q s) : ∀ r ∈ p.asks s, I r := by
  induction p generalizing s with
  | done a => exact fun r hr => (List.not_mem_nil hr).elim
  | reject expected => exact fun r hr => List.mem_singleton.mp hr ▸ h
  | tooDeep => exact fun r hr => List.mem_singleton.mp hr ▸ h
  | ahead n k ih => exact forall_mem_asksBehind h.1 fun t ht => ih t (h.2 t ht)
  | take k ih => exact forall_mem_asksBehind h.1 fun r hr => ih r.1 (h.2 r.1 r.2 hr)
  | skipLines k ih => exact forall_mem_asksBehind h.1 fun s' hs => ih () (h.2 s' hs)
  | beyondLines k ih => exact forall_mem_asksBehind h.1 fun kind hk => ih kind (h.2 kind hk)
  | enter layout k ih => exact ih () h
  | leave k ih => exact ih () h
  | inBrackets k ih => exact ih _ h

end Parse

/-! ## The brackets that tokens leave open -/

/-- The brackets that are open behind one more token, the innermost first; `none` where a bracket
closes that is not the innermost. -/
def Bracket.behind : TokenKind → List Bracket → Option (List Bracket)
  | .lparen, o => some (.paren :: o)
  | .lbracket, o => some (.index :: o)
  | .lbracket2, o => some (.element :: o)
  | .lbrace, o => some (.brace :: o)
  | .rparen, .paren :: o => some o
  | .rbracket, .index :: o => some o
  -- The first of its two closing brackets leaves an element subscript open.
  | .rbracket, .element :: o => some (.half :: o)
  | .rbracket, .half :: o => some o
  | .rbrace, .brace :: o => some o
  | .rparen, _ | .rbracket, _ | .rbrace, _ => none
  | _, o => some o

/-- The brackets that some tokens leave open, the innermost first, if none of them closes another
than the innermost. -/
def openedBy (ks : List TokenKind) : Option (List Bracket) :=
  ks.foldlM (fun o k => Bracket.behind k o) []

example : openedBy [.lbrace, .lbracket2, .ident, .rbracket] = some [.half, .brace] := rfl

example : openedBy [.lparen, .lbrace, .rparen] = none := rfl

theorem openedBy_append {ks ls : List TokenKind} {o : List Bracket} (h : openedBy ks = some o) :
    openedBy (ks ++ ls) = ls.foldlM (fun o k => Bracket.behind k o) o := by
  rw [openedBy, List.foldlM_append]
  exact congrArg (· >>= _) h

/-- Line feeds open and close nothing. -/
theorem openedBy_lines {ks : List TokenKind} {o : List Bracket} {lines : List Token}
    (h : openedBy ks = some o) (hl : ∀ t ∈ lines, t.kind = .newline) :
    openedBy (ks ++ lines.map (·.kind)) = some o := by
  rw [openedBy_append h]
  clear h
  induction lines with
  | nil => rfl
  | cons t ts ih =>
      rw [List.map_cons, List.foldlM_cons, hl t (List.mem_cons_self ..)]
      exact ih fun u hu => hl u (List.mem_cons_of_mem _ hu)

namespace Bracket

variable {k : TokenKind} {o : List Bracket}

theorem behind_constant {c : ConstantKind} (h : ConstantKind.ofKind? k = some c) :
    behind k o = some o := by
  cases k <;> first | rfl | simp [ConstantKind.ofKind?] at h

theorem behind_power {p : Power} (h : Power.ofKind? k = some p) : behind k o = some o := by
  cases k <;> first | rfl | simp [Power.ofKind?] at h

theorem behind_unary {op : UnaryOp} (h : UnaryOp.ofKind? k = some op) : behind k o = some o := by
  cases k <;> first | rfl | simp [UnaryOp.ofKind?] at h

theorem behind_argName {t : Token} {n : ArgName} (h : ArgName.ofToken? t = some n) :
    behind t.kind o = some o ∧ t.kind ≠ .eof := by
  unfold ArgName.ofToken? at h
  split at h <;> first | cases h | skip
  all_goals simp [*, behind]

theorem behind_separates (h : Grammar.separates k = true) : behind k o = some o := by
  cases k <;> first | rfl | simp [Grammar.separates] at h

end Bracket

/-! ## Feeds that mirror brackets -/

namespace Feed

variable {s₀ s s' : Feed} {o o' : List Bracket} {t : Token}

theorem take_ok (h : s.take = .ok (t, s')) :
    s.front = .ok t ∧ s'.layouts = s.layouts ∧ s'.tape = s.tape.past := by
  have htape := take_tape s
  rw [h] at htape
  rw [front_tape]
  cases hf : s.tape.front with
  | error e => rw [hf] at htape; cases htape
  | ok u =>
      rw [hf] at htape
      simp only [Except.map, Except.ok.injEq, Prod.mk.injEq] at htape
      obtain ⟨rfl, hpast⟩ := htape
      refine ⟨rfl, ?_, hpast⟩
      rw [show s'.layouts = s'.tape.layouts from rfl, hpast, Tape.past_layouts]
      rfl

theorem skipLines_ok (h : s.skipLines = .ok s') :
    s'.layouts = s.layouts ∧ s'.tape = s.tape.afterLines := by
  have htape := skipLines_tape s
  rw [h] at htape
  cases hb : s.tape.beyond with
  | error e => rw [hb] at htape; cases htape
  | ok t =>
      rw [hb] at htape
      simp only [Except.map, Except.ok.injEq] at htape
      refine ⟨?_, htape⟩
      rw [show s'.layouts = s'.tape.layouts from rfl, htape]
      rfl

/-- The second visible token is the next one behind the first. -/
theorem front_of_take (h : s.take = .ok (t, s')) (hk : t.kind ≠ .eof) : s'.front = s.ahead 1 := by
  obtain ⟨hfront, -, hpast⟩ := take_ok h
  rw [front_tape] at hfront
  rw [front_tape, ahead_tape, hpast, Tape.ahead, hfront]
  simp only [if_neg hk, Tape.ahead]

/-- The tokens taken since the feed `s₀` leave the brackets open. -/
def Stands (s s₀ : Feed) (o : List Bracket) : Prop :=
  ∃ taken, s₀.unread = taken ++ s.unread ∧ openedBy (taken.map (·.kind)) = some o

/-- **The layouts entered since the feed `s₀` are those of the brackets** that the tokens taken
since then leave open. -/
structure Mirrors (s s₀ : Feed) (o : List Bracket) : Prop where
  stands : s.Stands s₀ o
  layouts : s.layouts = o.map Bracket.layout ++ s₀.layouts

/-- A token is taken with the line feeds that are hidden before it. -/
theorem Stands.take (h : s.Stands s₀ o) (ht : s.take = .ok (t, s'))
    (hk : Bracket.behind t.kind o = some o') : s'.Stands s₀ o' := by
  obtain ⟨taken, hall, hopen⟩ := h
  obtain ⟨hfront, -, hpast⟩ := take_ok ht
  rw [front_tape] at hfront
  by_cases heof : t.kind = .eof
  · -- The end is no token of the list: what is left before it are line feeds.
    rw [heof] at hk
    cases hk
    have hnil : s.tape.shown.tokens = [] := Tape.tokens_of_end hfront heof
    have hleft : s'.unread = [] := by
      rw [show s'.unread = s'.tape.tokens from rfl, hpast, Tape.past_tokens, hnil]
      rfl
    have hlines : ∀ u ∈ s.unread, u.kind = .newline := by
      rw [Tape.shown_tokens] at hnil
      split at hnil
      · exact fun u hu => by simpa using List.dropWhile_eq_nil_iff.mp hnil u hu
      · rw [show s.unread = [] from hnil]
        exact fun _ hu => (List.not_mem_nil hu).elim
    refine ⟨taken ++ s.unread, by rw [hleft, List.append_nil, hall], ?_⟩
    rw [List.map_append]
    exact openedBy_lines hopen hlines
  · obtain ⟨lines, htokens, hlines⟩ := Tape.tokens_of_front hfront heof
    refine ⟨taken ++ (lines ++ [t]), ?_, ?_⟩
    · rw [hall, show s.unread = s.tape.tokens from rfl, htokens, ← hpast]
      simp only [List.append_assoc, List.singleton_append]
      rfl
    · rw [← List.append_assoc, List.map_append, List.map_append,
        openedBy_append (openedBy_lines hopen hlines)]
      simp [hk]

theorem Stands.skipLines (h : s.Stands s₀ o) (hs : s.skipLines = .ok s') : s'.Stands s₀ o := by
  obtain ⟨taken, hall, hopen⟩ := h
  obtain ⟨-, htape⟩ := skipLines_ok hs
  refine ⟨taken ++ s.unread.takeWhile (·.kind == .newline), ?_, ?_⟩
  · rw [hall, List.append_assoc, show s'.unread = s'.tape.tokens from rfl, htape]
    exact congrArg _ List.takeWhile_append_dropWhile.symm
  · rw [List.map_append]
    exact openedBy_lines hopen fun u hu => by simpa using List.mem_takeWhile_imp hu

theorem Mirrors.take (h : s.Mirrors s₀ o) (ht : s.take = .ok (t, s'))
    (hk : Bracket.behind t.kind o = some o) : s'.Mirrors s₀ o :=
  ⟨h.stands.take ht hk, (take_ok ht).2.1.trans h.layouts⟩

theorem Mirrors.skipLines (h : s.Mirrors s₀ o) (hs : s.skipLines = .ok s') : s'.Mirrors s₀ o :=
  ⟨h.stands.skipLines hs, (skipLines_ok hs).1.trans h.layouts⟩

/-- Where nothing has been taken no brackets have been opened. -/
theorem mirrors_self (s : Feed) : s.Mirrors s [] := ⟨⟨[], rfl, rfl⟩, rfl⟩

end Feed

/-! ## Parses that mind their brackets -/

namespace Parse

variable {α β : Type} {s₀ s : Feed} {o o' : List Bracket}

/-- From the feed on, the parse asks for tokens only where the layouts mirror the brackets, and it
ends in the brackets `o`. -/
abbrev Minds (s₀ : Feed) (o : List Bracket) (p : Parse α) (s : Feed) : Prop :=
  p.Heeds (fun r => ∃ o', r.Mirrors s₀ o') (fun _ s' => s'.Mirrors s₀ o) s

theorem minds_done {a : α} (h : s.Mirrors s₀ o) : (done a).Minds s₀ o s := h

theorem minds_reject {expected : List Continuation} (h : s.Mirrors s₀ o') :
    (reject expected : Parse α).Minds s₀ o s := ⟨o', h⟩

theorem minds_look {f : Token → Parse α} (h : s.Mirrors s₀ o)
    (hf : ∀ t, s.front = .ok t → (f t).Minds s₀ o' s) : (look.bind f).Minds s₀ o' s :=
  ⟨⟨o, h⟩, hf⟩

theorem minds_lookSecond {f : Token → Parse α} (h : s.Mirrors s₀ o)
    (hf : ∀ t, s.ahead 1 = .ok t → (f t).Minds s₀ o' s) : (lookSecond.bind f).Minds s₀ o' s :=
  ⟨⟨o, h⟩, hf⟩

/-- What is taken has been looked at. -/
theorem minds_take {f : Token → Parse α} {t : Token} (h : s.Mirrors s₀ o) (ht : s.front = .ok t)
    (hf : ∀ s', s.take = .ok (t, s') → (f t).Minds s₀ o' s') :
    (Parse.take f).Minds s₀ o' s := by
  refine ⟨⟨o, h⟩, fun u s' hu => ?_⟩
  obtain rfl : u = t := Except.ok.inj ((Feed.take_ok hu).1.symm.trans ht)
  exact hf s' hu

/-- A token that is no bracket is taken. -/
theorem minds_drop {f : Unit → Parse α} {t : Token} (h : s.Mirrors s₀ o) (ht : s.front = .ok t)
    (hk : Bracket.behind t.kind o = some o)
    (hf : ∀ s', s.take = .ok (t, s') → s'.Mirrors s₀ o → (f ()).Minds s₀ o' s') :
    (drop.bind f).Minds s₀ o' s :=
  minds_take h ht fun s' hs => hf s' hs (h.take hs hk)

/-- A token of one kind is taken. -/
theorem minds_demand {kind : TokenKind} {f : Token → Parse α} (h : s.Mirrors s₀ o)
    (hf : ∀ t s', t.kind = kind → s.take = .ok (t, s') → (f t).Minds s₀ o' s') :
    ((demand kind).bind f).Minds s₀ o' s := by
  rw [demand, bind_eq_bind, bind_bind]
  refine minds_look h fun t ht => ?_
  split
  · rename_i hk
    exact minds_take h ht fun s' hs => hf t s' hk hs
  · exact minds_reject h

/-- A bracket is taken and entered. -/
theorem minds_opened {b : Bracket} {f : Unit → Parse α} {t : Token} {s' : Feed}
    (h : s.Mirrors s₀ o) (hs : s.take = .ok (t, s')) (hk : Bracket.behind t.kind o = some (b :: o))
    (hf : ∀ s'', s''.Mirrors s₀ (b :: o) → (f ()).Minds s₀ o' s'') :
    ((opened b.layout).bind f).Minds s₀ o' s' :=
  have hstands := h.stands.take hs hk
  hf (s'.enter b.layout)
    ⟨hstands, congrArg (b.layout :: ·) ((Feed.take_ok hs).2.1.trans h.layouts)⟩

/-- The token that closes a bracket is taken, and the bracket is left. -/
theorem minds_closed {b : Bracket} {f : Unit → Parse α} {t : Token} {s' : Feed}
    (h : s.Mirrors s₀ (b :: o)) (hs : s.take = .ok (t, s'))
    (hk : Bracket.behind t.kind (b :: o) = some o)
    (hf : ∀ s'', s''.Mirrors s₀ o → (f ()).Minds s₀ o' s'') :
    (closed.bind f).Minds s₀ o' s' :=
  have hstands := h.stands.take hs hk
  hf s'.leave ⟨hstands, congrArg List.tail ((Feed.take_ok hs).2.1.trans h.layouts)⟩

/-! ## Parses that keep their brackets -/

/-- Wherever the layouts mirror the brackets the parse minds them, and ends in the same. -/
def Keeps (s₀ : Feed) (p : Parse α) : Prop := ∀ o s, s.Mirrors s₀ o → p.Minds s₀ o s

theorem Keeps.bind {p : Parse α} {f : α → Parse β} (h : Keeps s₀ p) (hf : ∀ a, Keeps s₀ (f a)) :
    Keeps s₀ (p.bind f) :=
  fun o s hs => (h o s hs).bind fun a s' => hf a o s'

/-- A parse whose result is made into another. -/
theorem Keeps.map {p : Parse α} {f : α → β} (h : Keeps s₀ p) :
    Keeps s₀ (p.bind fun a => done (f a)) :=
  h.bind fun _ _ _ => minds_done

/-- So it leaves the layouts as it found them, wherever it starts. -/
theorem layouts_of_keeps {p : Parse α} {s' : Feed} {a : α} (h : Keeps s p)
    (hp : p.run s = .ok (a, s')) : s'.layouts = s.layouts :=
  ((h [] s s.mirrors_self).run hp).layouts

theorem keeps_done (a : α) : Keeps s₀ (done a) := fun _ _ => minds_done

theorem keeps_reject {expected : List Continuation} : Keeps s₀ (reject expected : Parse α) :=
  fun _ _ => minds_reject

theorem keeps_look {f : Token → Parse α} (hf : ∀ t, Keeps s₀ (f t)) : Keeps s₀ (look.bind f) :=
  fun o _ hs => minds_look hs fun t _ => hf t o _ hs

theorem keeps_dropLines : Keeps s₀ dropLines :=
  fun o _ hs => ⟨⟨o, hs⟩, fun _ hs' => hs.skipLines hs'⟩

theorem keeps_kindBeyondLines : Keeps s₀ kindBeyondLines :=
  fun o _ hs => ⟨⟨o, hs⟩, fun _ _ => hs⟩

theorem keeps_bracketed : Keeps s₀ bracketed := fun _ _ hs => hs

/-- A token of one kind that is no bracket is taken. -/
theorem keeps_demand {kind : TokenKind} (hk : ∀ o, Bracket.behind kind o = some o) :
    Keeps s₀ (demand kind) := by
  intro o s hs
  rw [← bind_done (demand kind)]
  exact minds_demand hs fun t s' ht hs' => hs.take hs' (by rw [ht]; exact hk o)

/-- What stands between two brackets, with the brackets. -/
theorem keeps_enclosed {b : Bracket} {left right : TokenKind} {q : Token → Parse β}
    {f : Token → β → Token → Unit → Parse α}
    (hleft : ∀ o, Bracket.behind left o = some (b :: o))
    (hright : ∀ o, Bracket.behind right (b :: o) = some o) (hq : ∀ t, Keeps s₀ (q t))
    (hf : ∀ t a u, Keeps s₀ (f t a u ())) :
    Keeps s₀ ((demand left).bind fun t => (opened b.layout).bind fun _ =>
      (q t).bind fun a => (demand right).bind fun u => closed.bind (f t a u)) := by
  intro o s hs
  refine minds_demand hs fun t s₁ ht hs₁ => ?_
  have hopening : Bracket.behind t.kind o = some (b :: o) := by rw [ht, hleft]
  refine minds_opened hs hs₁ hopening fun s₂ hs₂ => ?_
  refine (hq t (b :: o) s₂ hs₂).bind fun a s₃ hs₃ => ?_
  refine minds_demand hs₃ fun u s₄ hu hs₄ => ?_
  have hclosing : Bracket.behind u.kind (b :: o) = some o := by rw [hu, hright]
  exact minds_closed hs₃ hs₄ hclosing fun s₅ hs₅ => hf t a u o s₅ hs₅

end Parse

end RSource
