import RSource.Proofs.Parting

/-!
# Requests of a parse on two sources that part

* `Parting.Decides`, `Parting.Fair` — a parse decides about a token by its kind, and what it expects
  instead it would take.
* `lawful_of_decides`, `lawful_of_passes`, `lawful_elseFollows` — the ways in which a parse is
  lawful: it decides, or it leaves that to what it goes on with.
* `At.look`, `At.drop`, `At.demand`, `At.dropLines` and the like — **one lemma a request**.
* `Beyonds`, `Clauses` — the next tokens past line feeds, and those that decide on an `else`.
* `lawful_secondBracket`, `At.secondBracket` — the bracket that has to adjoin another.
-/

namespace RSource

namespace Parting

variable {F : Parting} {ω : Type} {c : Scope} {ls : List Layout} {prev : Option (Token × Token)}
  {n : Nat} {s r : Tape} {p q : Parse ω}

open Parse

/-! ## Lawful parses -/

/-- The parse takes a visible token of the kinds, and replies to all others in one way. It may be
nested too deeply for any token. -/
def Decides (A : TokenKind → Prop) (v : Reply) (p : Parse ω) : Prop :=
  ∀ u o, p.Faces u o →
    A u.kind ∧ (o = .taken ∨ o = .broken) ∨ (A u.kind → v = .tooDeep) ∧ o = v

/-- The reply says no more than that what is expected would be taken. -/
def Fair (A : TokenKind → Prop) (v : Reply) : Prop :=
  v = .tooDeep ∨ ∃ x, v = .refused x ∧ ∀ y ∈ x, y.IsExpected ∧ ∀ k, y.Accepts k → A k

variable {A B : TokenKind → Prop} {v : Reply} {free : Bool}

theorem Fair.mono (h : Fair A v) (hAB : ∀ k, A k → B k) : Fair B v := by
  rcases h with h | ⟨x, h, hx⟩
  · exact Or.inl h
  · exact Or.inr ⟨x, h, fun y hy => ⟨(hx y hy).1, fun k hk => hAB k ((hx y hy).2 k hk)⟩⟩

/-- A parse that decides about a token by its kind is lawful, if it takes what it expects. -/
theorem lawful_of_decides (hp : Decides A v p) (hq : Decides A v q) (hv : Fair A v)
    (hend : ¬ A .eof)
    (hlines : F.old.kind = .newline → free = false → A .newline ∨ F.scope.header = true) :
    F.Lawful free p q := by
  have hmoved : v ≠ .moved := by rcases hv with rfl | ⟨x, rfl, -⟩ <;> simp
  have htaken : v ≠ .taken := by rcases hv with rfl | ⟨x, rfl, -⟩ <;> simp
  have hrefused {x} (h : p.Faces F.old (.refused x)) : ¬ A F.old.kind ∧ v = .refused x := by
    rcases hp _ _ h with ⟨-, h | h⟩ | ⟨hA, h⟩
    · cases h
    · cases h
    · refine ⟨fun hA' => ?_, h.symm⟩
      rw [hA hA'] at h
      cases h
  refine ⟨fun u h => ?_, fun u hu h => ?_, fun hn hf x h => ?_, fun x h y hy => ?_,
    fun _ hagain x h o ho => ?_, fun _ x h hfits o ho => ?_⟩
  · rcases hp _ _ h with ⟨-, h | h⟩ | ⟨-, h⟩
    · cases h
    · cases h
    · exact hmoved h.symm
  · rcases hp _ _ h with ⟨hA, -⟩ | ⟨-, h⟩
    · exact hend (hu ▸ hA)
    · exact htaken h.symm
  · exact (hlines hn hf).resolve_left fun hA => (hrefused h).1 (hn ▸ hA)
  · rcases hv with hv | ⟨x', hv, hx⟩
    · rw [(hrefused h).2] at hv
      cases hv
    · rw [(hrefused h).2] at hv
      cases hv
      exact (hx y hy).1
  · obtain ⟨hA, rfl⟩ := hrefused h
    rcases hq _ _ ho with ⟨hA', -⟩ | ⟨-, ho⟩
    · rw [hagain.like.kind] at hA'
      exact absurd hA' hA
    · exact ho
  · obtain ⟨-, rfl⟩ := hrefused h
    obtain ⟨y, hy, hk⟩ := hfits.accepts
    rcases hq _ _ ho with ⟨-, ho⟩ | ⟨hA, -⟩
    · exact ho.imp_right Or.inr
    · rcases hv with hv | ⟨x', hv, hx⟩
      · cases hv
      · cases hv
        cases hA ((hx y hy).2 _ hk)

/-- A parse that demands a token takes one of its kind alone. -/
theorem decides_demand (kind : TokenKind) (f : Token → Parse ω) :
    Decides (· = kind) (.refused [.token kind]) ((demand kind).bind f) := by
  intro u o ho
  simp only [demand, bind_eq_bind, look, Parse.bind, Faces] at ho
  split at ho
  · rename_i hk
    exact Or.inl ⟨hk, Or.inl ho⟩
  · rename_i hk
    exact Or.inr ⟨fun hk' => absurd hk' hk, ho⟩

theorem fair_token {kind : TokenKind} (h : kind.isExpected = true) :
    Fair (· = kind) (.refused [.token kind]) := by
  refine Or.inr ⟨_, rfl, fun y hy => ?_⟩
  obtain rfl := List.mem_singleton.mp hy
  exact ⟨h, fun _ hk => hk⟩

/-- A parse that takes a token of some kinds, and leaves all others to a lawful one, is lawful. -/
theorem lawful_of_passes {p' q' : Parse ω}
    (hp : ∀ u o, p.Faces u o →
      A u.kind ∧ (o = .taken ∨ o = .broken) ∨ ¬ A u.kind ∧ p'.Faces u o)
    (hq : ∀ u o, q.Faces u o →
      A u.kind ∧ (o = .taken ∨ o = .broken) ∨ ¬ A u.kind ∧ q'.Faces u o)
    (hend : ¬ A .eof) (h : F.Lawful free p' q') : F.Lawful free p q := by
  have hrefused {x} (h : p.Faces F.old (.refused x)) :
      ¬ A F.old.kind ∧ p'.Faces F.old (.refused x) := by
    rcases hp _ _ h with ⟨-, h | h⟩ | h
    · cases h
    · cases h
    · exact h
  refine ⟨fun u hu => ?_, fun u hk hu => ?_, fun hn hf x hx => h.lines hn hf x (hrefused hx).2,
    fun x hx => h.usual x (hrefused hx).2, fun hvisible hagain x hx o ho => ?_,
    fun hvisible x hx hfits o ho => ?_⟩
  · rcases hp _ _ hu with ⟨-, hu | hu⟩ | ⟨-, hu⟩
    · cases hu
    · cases hu
    · exact h.steady u hu
  · rcases hp _ _ hu with ⟨hA, -⟩ | ⟨-, hu⟩
    · exact hend (hk ▸ hA)
    · exact h.end_left u hk hu
  · obtain ⟨hA, hx⟩ := hrefused hx
    rcases hq _ _ ho with ⟨hA', -⟩ | ⟨-, ho⟩
    · rw [hagain.like.kind] at hA'
      exact absurd hA' hA
    · exact h.same hvisible hagain x hx o ho
  · rcases hq _ _ ho with ⟨-, ho⟩ | ⟨-, ho⟩
    · exact ho.imp_right Or.inr
    · exact h.next hvisible x (hrefused hx).2 hfits o ho

/-- What a parse does about a token that may be an `else` behind a form: unless it is one, or a line
feed stands before one, that is up to what goes on without it. -/
theorem faces_elseFollows {f : Bool → Parse ω} {u : Token} {o : Reply}
    (h : (Grammar.elseFollows.bind f).Faces u o) :
    (u.kind ≠ .elseWord ∧ (f false).Faces u o) ∨ (u.kind = .newline ∧ o = .broken) ∨
      ((u.kind = .newline ∨ u.kind = .elseWord) ∧ (f true).Faces u o) := by
  have hdecide (k : TokenKind) (hk : (f (k == .elseWord)).Faces u o) :
      k ≠ .elseWord ∧ (f false).Faces u o ∨ k = .elseWord ∧ (f true).Faces u o := by
    by_cases he : k = .elseWord
    · exact Or.inr ⟨he, by simpa [he] using hk⟩
    · exact Or.inl ⟨he, by simpa [beq_eq_false_iff_ne.mpr he] using hk⟩
  obtain ⟨b, h⟩ := h
  cases b with
  | false =>
      rcases hdecide u.kind h with h | ⟨hk, h⟩
      · exact Or.inl h
      · exact Or.inr (Or.inr ⟨Or.inr hk, h⟩)
  | true =>
      by_cases hn : u.kind = .newline
      · have h' : o = .broken ∨ ∃ k : TokenKind, (f (k == .elseWord)).Faces u o := by
          simpa [Parse.bind, kindBeyondLines, hn] using h
        rcases h' with h | ⟨k, h⟩
        · exact Or.inr (Or.inl ⟨hn, h⟩)
        · rcases hdecide k h with ⟨-, h⟩ | ⟨-, h⟩
          · exact Or.inl ⟨by simp [hn], h⟩
          · exact Or.inr (Or.inr ⟨Or.inl hn, h⟩)
      · have h' : (f (u.kind == .elseWord)).Faces u o := by
          simpa [Parse.bind, kindBeyondLines, hn] using h
        rcases hdecide u.kind h' with h | ⟨hk, h⟩
        · exact Or.inl h
        · exact Or.inr (Or.inr ⟨Or.inr hk, h⟩)

/-- A form that may go on with an `else` is lawful if it is without it, and takes it if it comes. -/
theorem lawful_elseFollows {f g : Bool → Parse ω} (hheader : F.scope.header = false)
    (hf : ∀ u o, u.kind = .newline ∨ u.kind = .elseWord → (f true).Faces u o →
      o = .taken ∨ o = .broken)
    (hg : ∀ u o, u.kind = .newline ∨ u.kind = .elseWord → (g true).Faces u o →
      o = .taken ∨ o = .broken)
    (h : F.Lawful free (f false) (g false)) :
    F.Lawful free (Grammar.elseFollows.bind f) (Grammar.elseFollows.bind g) := by
  have hrefused {x} (hx : (Grammar.elseFollows.bind f).Faces F.old (.refused x)) :
      F.old.kind ≠ .elseWord ∧ (f false).Faces F.old (.refused x) := by
    rcases faces_elseFollows hx with hx | ⟨-, hx⟩ | ⟨hk, hx⟩
    · exact hx
    · cases hx
    · rcases hf _ _ hk hx with hx | hx <;> cases hx
  -- Past a line feed that is not refused nothing needs to be known.
  have hline {x} (hvisible : free = true → F.old.kind ≠ .newline)
      (hx : (f false).Faces F.old (.refused x)) : F.old.kind ≠ .newline := by
    intro hn
    cases hfree : free with
    | true => exact hvisible hfree hn
    | false =>
        have hopen := h.lines hn hfree x hx
        rw [hheader] at hopen
        cases hopen
  refine ⟨fun u hu => ?_, fun u hk hu => ?_,
    fun hn hfree x hx => h.lines hn hfree x (hrefused hx).2,
    fun x hx => h.usual x (hrefused hx).2, fun hvisible hagain x hx o ho => ?_,
    fun hvisible x hx hfits o ho => ?_⟩
  · rcases faces_elseFollows hu with ⟨-, hu⟩ | ⟨-, hu⟩ | ⟨hk, hu⟩
    · exact h.steady u hu
    · cases hu
    · rcases hf _ _ hk hu with hu | hu <;> cases hu
  · rcases faces_elseFollows hu with ⟨-, hu⟩ | ⟨-, hu⟩ | ⟨hk' | hk', -⟩
    · exact h.end_left u hk hu
    · cases hu
    · rw [hk] at hk'
      cases hk'
    · rw [hk] at hk'
      cases hk'
  · obtain ⟨helse, hx⟩ := hrefused hx
    have hn := hline hvisible hx
    rw [← hagain.like.kind] at helse hn
    rcases faces_elseFollows ho with ⟨-, ho⟩ | ⟨hk, -⟩ | ⟨hk | hk, -⟩
    · exact h.same hvisible hagain x hx o ho
    · exact absurd hk hn
    · exact absurd hk hn
    · exact absurd hk helse
  · obtain ⟨helse, hx⟩ := hrefused hx
    rcases faces_elseFollows ho with ⟨-, ho⟩ | ⟨-, ho⟩ | ⟨hk, ho⟩
    · exact h.next hvisible x hx hfits o ho
    · exact Or.inr (Or.inr ho)
    · exact (hg _ _ hk ho).imp_right Or.inr

/-! ## Parses that are not refused where the sources part -/

/-- Before the point where the sources part nothing is refused there. -/
theorem Before.passes_reject (h : F.Before s) {x : List Continuation} :
    F.Passes (reject x : Parse ω) s := by
  intro y s' hp hs
  rw [refusal] at hp
  split at hp <;> cases hp
  rw [Before, hs] at h
  exact absurd h (Nat.lt_irrefl _)

/-- A parse that succeeds or is nested too deeply is not refused. -/
theorem passes_done (a : ω) : F.Passes (done a) s := fun _ _ h => by cases h

theorem passes_tooDeep : F.Passes (.tooDeep : Parse ω) s := fun _ _ h => by cases h

/-- Behind the old token the parse of the first source is past the point where they part. -/
theorem passes_take {f : Token → Parse ω} {u : Token} (hu : s.front = .ok u) (hk : u.kind ≠ .eof)
    (hb : ¬ F.Before s) : F.Passes (take f) s := by
  intro x s' hp
  rw [refusal, hu] at hp
  refine passes_of_lt ?_ x s' hp
  have hne : s.shown.tokens ≠ [] := by
    intro hnil
    rw [Tape.front, Tape.head_nil hnil] at hu
    exact hk (s.shown.ending_eof u hu)
  have hpos := List.length_pos_iff.mpr hne
  rw [Before] at hb
  rw [Tape.past_tokens, List.length_tail]
  omega

namespace At

variable {f g : Token → Parse ω} {u v : Token}

/-- Looking at a token that is known to be in front. -/
theorem look_again (hu : s.front = .ok u) (hv : r.front = .ok v) (hf : F.Follows (f u) (g v) s r) :
    F.Follows (Parse.look.bind f) (Parse.look.bind g) s r := by
  refine hf.of_eq ?_ ?_
  · simp [Parse.look, Parse.bind, Tape.ahead, hu]
  · simp [Parse.look, Parse.bind, Tape.ahead, hv]

/-- Looking at the next token. -/
theorem look (h : F.At c ls prev n s r)
    (hl : F.Parted c prev s r → ¬ F.Before s →
      F.Lawful (ls.head? == some .free) (look.bind f) (look.bind g))
    (hf : ∀ u v, s.front = .ok u → r.front = .ok v → Like u v → u.kind ≠ .eof → F.Before s →
      F.Follows (f u) (g v) s r) : F.Follows (look.bind f) (look.bind g) s r := by
  cases h.fronts with
  | common hu hv huv hk hb hadj hpast => exact look_again hu hv (hf _ _ hu hv huv hk hb)
  | parted hparted hb =>
      exact follows_of_lawful hparted h.ending h.ending' h.isFree.1 h.isFree.2 (hl hparted hb)

/-- Taking a token that is known to be in front. -/
theorem take (h : F.At c ls prev n s r) (hu : s.front = .ok u) (hk : u.kind ≠ .eof)
    (hf : ∀ m v, n = m + 1 → Like u v → (∀ p ∈ prev, Alongside p (u, v)) →
      F.At (c.step u.kind) ls (if u.kind = .newline then prev else some (u, v)) m s.past r.past →
      F.Follows (f u) (g v) s.past r.past) : F.Follows (.take f) (.take g) s r := by
  cases h.fronts with
  | @common u' v hu' hv huv hk' hb hadj hpast =>
      rw [hu] at hu'
      cases hu'
      obtain ⟨m, rfl⟩ := h.exists_succ
      refine (hf m v rfl huv hadj (hpast m rfl)).of_eq ?_ ?_
      · rw [refusal, hu]
      · rw [play, hv]
  | parted hparted hb => exact (passes_take hu hk hb).follows

/-- Taking a token that has been looked at. -/
theorem drop {f g : Unit → Parse ω} (h : F.At c ls prev n s r) (hu : s.front = .ok u)
    (hk : u.kind ≠ .eof)
    (hf : ∀ m prev', n = m + 1 → F.At (c.step u.kind) ls prev' m s.past r.past →
      F.Follows (f ()) (g ()) s.past r.past) :
    F.Follows (Parse.drop.bind f) (Parse.drop.bind g) s r :=
  take (f := fun _ => f ()) (g := fun _ => g ()) h hu hk fun m _ hm _ _ hpast => hf m _ hm hpast

/-- Taking a token of a kind that is known to be in front. -/
theorem demand_again {kind : TokenKind} (h : F.At c ls prev n s r) (hu : s.front = .ok u)
    (hv : r.front = .ok v) (huv : Like u v) (hkind : u.kind = kind) (he : kind ≠ .eof)
    (hn : kind ≠ .newline)
    (hf : ∀ m u v, n = m + 1 → u.kind = kind →
      F.At (c.step kind) ls (some (u, v)) m s.past r.past →
      F.Follows (f u) (g v) s.past r.past) :
    F.Follows ((demand kind).bind f) ((demand kind).bind g) s r := by
  have haccept : F.Follows (.take f) (.take g) s r := by
    refine take h hu (by rwa [hkind]) fun m v hm _ _ hpast => ?_
    rw [hkind, if_neg hn] at hpast
    exact hf m u v hm hkind hpast
  refine look_again (f := fun t => (if t.kind = kind then accept else .reject [.token kind]).bind f)
    (g := fun t => (if t.kind = kind then accept else .reject [.token kind]).bind g) hu hv ?_
  rw [huv.kind, if_pos hkind]
  exact haccept

/-- Going inside brackets. -/
theorem opened {f g : Unit → Parse ω} {l : Layout} (h : F.At c ls prev n s r)
    (hf : F.At c (l :: ls) prev n (s.enter l) (r.enter l) →
      F.Follows (f ()) (g ()) (s.enter l) (r.enter l)) :
    F.Follows ((Parse.opened l).bind f) ((Parse.opened l).bind g) s r := by
  have hin : F.At c (l :: ls) prev n (s.enter l) (r.enter l) :=
    { h with
      layouts := by rw [Tape.enter_layouts, h.layouts]
      layouts' := by rw [Tape.enter_layouts, h.layouts'] }
  exact (hf hin).of_eq rfl rfl

/-- Going outside brackets. -/
theorem closed {f g : Unit → Parse ω} (h : F.At c ls prev n s r)
    (hf : F.At c ls.tail prev n s.leave r.leave → F.Follows (f ()) (g ()) s.leave r.leave) :
    F.Follows (Parse.closed.bind f) (Parse.closed.bind g) s r := by
  have hout : F.At c ls.tail prev n s.leave r.leave :=
    { h with
      layouts := by rw [Tape.leave_layouts, h.layouts]
      layouts' := by rw [Tape.leave_layouts, h.layouts'] }
  exact (hf hout).of_eq rfl rfl

/-- Demanding a token of a kind. A line feed may be refused only before the parenthesis of a
header. -/
theorem demand {kind : TokenKind} (h : F.At c ls prev n s r) (hexpected : kind.isExpected = true)
    (hlines : ¬ F.Before s → ls.head? = some .free ∨ c.header = true ∨ F.old.kind ≠ .newline)
    (hf : ∀ m u v, n = m + 1 → u.kind = kind →
      F.At (c.step kind) ls (some (u, v)) m s.past r.past →
      F.Follows (f u) (g v) s.past r.past) :
    F.Follows ((Parse.demand kind).bind f) ((Parse.demand kind).bind g) s r := by
  have hne := TokenKind.ne_of_isExpected hexpected
  cases h.fronts with
  | @common u v hu hv huv hk hb hadj hpast =>
      by_cases hkind : u.kind = kind
      · exact demand_again h hu hv huv hkind hne.1 hne.2.1 hf
      · refine (Passes.follows ?_)
        have hreject : ((Parse.demand kind).bind f).refusal s =
            (reject [.token kind] : Parse ω).refusal s := by
          simp [Parse.demand, Parse.look, Parse.bind, Tape.ahead, hu, hkind]
        intro x s' hx
        rw [hreject] at hx
        exact hb.passes_reject x s' hx
  | parted hparted hb =>
      refine follows_of_lawful hparted h.ending h.ending' h.isFree.1 h.isFree.2
        (lawful_of_decides (decides_demand kind f) (decides_demand kind g) (fair_token hexpected)
          (Ne.symm hne.1) ?_)
      intro hold hfree
      rcases hlines hb with hfree' | hheader | hne
      · rw [hfree'] at hfree
        cases hfree
      · exact Or.inr (hparted.scope ▸ hheader)
      · exact absurd hold hne

end At

/-! ## Past line feeds -/

/-- What the next tokens of two tapes that are no line feeds are: tokens of one kind; no token for
the first one; or the tokens at which the sources part. -/
inductive Beyonds (F : Parting) (s r : Tape) : Prop where
  | same {u v : Token} (hu : s.beyond = .ok u) (hv : r.beyond = .ok v) (hk : v.kind = u.kind)
  | fault {e : LexError} (he : s.beyond = .error e)
  | parted (hu : s.beyond = .ok F.old) (hv : r.beyond = .ok F.new)
      (hs : s.afterLines.tokens = F.stem)

theorem beyond_of_heads {s : Tape} {t : Token} {ts : List Token} (h : Heads ts s.ending t)
    (hs : s.afterLines.tokens = ts) : s.beyond = .ok t := by
  rcases h with ⟨us, rfl⟩ | ⟨rfl, he⟩
  · exact Tape.head_cons hs
  · exact (Tape.head_nil hs).trans he

theorem dropWhile_of_heads {ts : List Token} {ending : Except LexError Token} {t : Token}
    (h : Heads ts ending t) (ht : t.kind ≠ .newline) : ts.dropWhile (·.kind == .newline) = ts := by
  rcases h with ⟨us, rfl⟩ | ⟨rfl, -⟩
  · simp [ht]
  · rfl

/-- Behind all line feeds there are tokens that are alike, or the sources part. -/
theorem At.after_lines (h : F.At c ls prev n s r) :
    (∃ u v ps, Like u v ∧ u.kind ≠ .newline ∧ F.Shared c prev ((u, v) :: ps) ∧
      s.afterLines.tokens = u :: (ps.map (·.1) ++ F.stem) ∧
      r.afterLines.tokens = v :: (ps.map (·.2) ++ F.branch)) ∨
    F.Shared c prev [] ∧ s.afterLines.tokens = F.stem.dropWhile (·.kind == .newline) ∧
      r.afterLines.tokens = F.branch.dropWhile (·.kind == .newline) := by
  obtain ⟨ps, hps, hs, hr⟩ := h.tokens
  obtain ⟨ns, rest, rfl, hlines, hhead⟩ := exists_lines ps
  have hhidden := hps.lines hlines
  rw [Tape.afterLines_tokens, Tape.afterLines_tokens, hs, hr, List.map_append, List.map_append,
    List.append_assoc, List.append_assoc,
    dropWhile_lines fun l hl => hhidden l (List.mem_append_left _ hl),
    dropWhile_lines fun l hl => hhidden l (List.mem_append_right _ hl)]
  have hshared := hps.drop hlines
  cases rest with
  | nil => exact Or.inr ⟨hshared, rfl, rfl⟩
  | cons p rest =>
      obtain ⟨u, v⟩ := p
      have huv : Like u v := hshared.like (u, v) (List.mem_cons_self ..)
      have hu : u.kind ≠ .newline := hhead (u, v) rfl
      refine Or.inl ⟨u, v, rest, huv, hu, hshared, ?_, ?_⟩
      · simp [hu]
      · simp [huv.kind, hu]

/-- Where no header is about to start, the next tokens that are no line feeds are of one kind, or
the sources part at them. -/
theorem At.beyonds (h : F.At c ls prev n s r) (hc : c.header = false) : F.Beyonds s r := by
  rcases h.after_lines with ⟨u, v, ps, huv, -, -, hs, hr⟩ | ⟨hshared, hs, hr⟩
  · exact .same (Tape.head_cons hs) (Tape.head_cons hr) huv.kind
  · rcases F.apart with hapart | ⟨hbranch, hend⟩
    · have hold : F.old.kind ≠ .newline := by
        intro hn
        have hheader := hapart hn
        rw [hshared.nil.1, hc] at hheader
        cases hheader
      have hnew := new_ne hold (Or.inl rfl)
      rw [dropWhile_of_heads F.heads hold] at hs
      rw [dropWhile_of_heads F.heads' hnew] at hr
      exact .parted (beyond_of_heads (h.ending ▸ F.heads) hs)
        (beyond_of_heads (h.ending' ▸ F.heads') hr) hs
    · have hbeyond : r.beyond = s.beyond := by
        rw [Tape.beyond, Tape.beyond, Tape.head, Tape.head, hs, hr, hbranch, Tape.afterLines_ending,
          Tape.afterLines_ending, h.ending, h.ending', hend]
      cases hb : s.beyond with
      | error e => exact .fault hb
      | ok u => exact .same hb (hbeyond.trans hb) rfl

/-- What the tokens are that decide on an `else` in two tapes: tokens of one kind; no token for the
first one; or the tokens at which the sources part. -/
inductive Clauses (F : Parting) (s r : Tape) : Prop where
  | same {u v : Token} (hu : s.clause = .ok u) (hv : r.clause = .ok v) (hk : v.kind = u.kind)
  | fault {e : LexError} (he : s.clause = .error e)
  | parted (hu : s.clause = .ok F.old) (hv : r.clause = .ok F.new)
      (hs : F.old.kind ≠ .newline → s.afterLines.tokens = F.stem)

theorem refusal_elseFollows (f : Bool → Parse ω) (s : Tape) :
    (Grammar.elseFollows.bind f).refusal s =
      match s.clause with
      | .error _ => none
      | .ok t => (f (t.kind == .elseWord)).refusal s := by
  cases hb : s.inBrackets with
  | true =>
      cases ht : s.beyond <;>
        simp [Grammar.elseFollows, bracketed, kindBeyondLines, Parse.bind, Tape.clause, hb, ht]
  | false =>
      cases ht : s.front <;>
        simp [Grammar.elseFollows, bracketed, Parse.look, Parse.bind, Tape.ahead, Tape.clause, hb,
          ht]

namespace At

/-- Passing over line feeds. Behind them no line feed is the next token. -/
theorem dropLines {f g : Unit → Parse ω} (h : F.At c ls prev n s r)
    (hf : F.At c ls prev n s.afterLines r.afterLines →
      (¬ F.Before s.afterLines → F.old.kind ≠ .newline) →
      F.Follows (f ()) (g ()) s.afterLines r.afterLines) :
    F.Follows (Parse.dropLines.bind f) (Parse.dropLines.bind g) s r := by
  have hat {ps : List (Token × Token)} (hps : F.Shared c prev ps)
      (hs : s.afterLines.tokens = ps.map (·.1) ++ F.stem)
      (hr : r.afterLines.tokens = ps.map (·.2) ++ F.branch) :
      F.At c ls prev n s.afterLines r.afterLines :=
    ⟨h.layouts, h.layouts', h.ending, h.ending', h.room.afterLines, h.room'.afterLines,
      ps, hps, hs, hr⟩
  rcases h.after_lines with ⟨u, v, ps, huv, hu, hps, hs, hr⟩ | ⟨hps, hs, hr⟩
  · have hbefore : F.Before s.afterLines := by
      have hshown : s.afterLines.shown.tokens = u :: (ps.map (·.1) ++ F.stem) := by
        rw [Tape.shown_tokens, hs]
        simp [hu]
      rw [Before, hshown, List.length_cons, List.length_append]
      omega
    refine (hf (hat hps hs hr) fun hb => absurd hbefore hb).of_eq ?_ ?_
    · simp [Parse.dropLines, Parse.bind, Tape.beyond, Tape.head_cons hs]
    · simp [Parse.dropLines, Parse.bind, Tape.beyond, Tape.head_cons hr]
  · by_cases hold : F.old.kind = .newline
    · -- The old token itself is passed over.
      apply Passes.follows
      intro x s' hx
      have hx' : (f ()).refusal s.afterLines = some (x, s') := by
        simp only [Parse.dropLines, Parse.bind, refusal] at hx
        split at hx
        · cases hx
        · exact hx
      refine passes_of_lt ?_ x s' hx'
      rcases F.heads with ⟨us, hstem⟩ | ⟨-, hend⟩
      · have hle :=
          (List.dropWhile_suffix (fun t : Token => t.kind == .newline) (l := us)).length_le
        rw [hs, hstem]
        simp only [hold, beq_self_eq_true, List.dropWhile_cons_of_pos, List.length_cons]
        omega
      · have hk := s.ending_eof F.old (h.ending.trans hend)
        rw [hold] at hk
        cases hk
    · have hnew : F.new.kind ≠ .newline := new_ne hold (Or.inl rfl)
      rw [dropWhile_of_heads F.heads hold] at hs
      rw [dropWhile_of_heads F.heads' hnew] at hr
      refine (hf (hat hps hs hr) fun _ => hold).of_eq ?_ ?_
      · simp [Parse.dropLines, Parse.bind, beyond_of_heads (h.ending ▸ F.heads) hs]
      · simp [Parse.dropLines, Parse.bind, beyond_of_heads (h.ending' ▸ F.heads') hr]

/-- What decides on an `else` is of one kind in both tapes, or the sources part at it. -/
theorem clauses (h : F.At c ls prev n s r) (hc : c.header = false) : F.Clauses s r := by
  have hin : s.inBrackets = !ls.isEmpty ∧ r.inBrackets = !ls.isEmpty := by
    rw [Tape.inBrackets, Tape.inBrackets, h.layouts, h.layouts']
    exact ⟨rfl, rfl⟩
  cases hls : ls.isEmpty with
  | false =>
      have hclause : s.clause = s.beyond ∧ r.clause = r.beyond := by
        simp [Tape.clause, hin, hls]
      cases h.beyonds hc with
      | same hu hv hk => exact .same (hclause.1.trans hu) (hclause.2.trans hv) hk
      | fault he => exact .fault (hclause.1.trans he)
      | parted hu hv hs => exact .parted (hclause.1.trans hu) (hclause.2.trans hv) fun _ => hs
  | true =>
      have hclause : s.clause = s.front ∧ r.clause = r.front := by
        simp [Tape.clause, hin, hls]
      have hfree : s.isFree = false ∧ r.isFree = false := by
        rw [h.isFree.1, h.isFree.2, List.isEmpty_iff.mp hls]
        exact ⟨rfl, rfl⟩
      cases h.fronts with
      | common hu hv huv => exact .same (hclause.1.trans hu) (hclause.2.trans hv) huv.kind
      | parted hp =>
          obtain ⟨lines, lines', hs, hr, -, hnil⟩ := hp.tokens
          obtain ⟨rfl, rfl⟩ : lines = [] ∧ lines' = [] := by simpa [hfree.1] using hnil
          have hshown : s.shown.tokens = F.stem := by simp [Tape.shown_tokens, hfree.1, hs]
          have hshown' : r.shown.tokens = F.branch := by simp [Tape.shown_tokens, hfree.2, hr]
          have hu := front_of_heads (h.ending ▸ F.heads) hshown
          have hv := front_of_heads (h.ending' ▸ F.heads') hshown'
          exact .parted (hclause.1.trans hu) (hclause.2.trans hv) fun hne =>
            (Tape.afterLines_tokens_of_front hu hne).trans hshown

/-- Whether an `else` belongs to the form just read. -/
theorem elseFollows {f g : Bool → Parse ω} (h : F.At c ls prev n s r) (hc : c.header = false)
    (htrue : ∀ u, s.beyond = .ok u → u.kind = .elseWord → F.Follows (f true) (g true) s r)
    (hfalse : F.Follows (f false) (g false) s r)
    (hpass : s.beyond = .ok F.old → F.old.kind = .elseWord → s.afterLines.tokens = F.stem →
      F.Passes (f true) s) :
    F.Follows (Grammar.elseFollows.bind f) (Grammar.elseFollows.bind g) s r := by
  cases h.clauses hc with
  | @same u v hu hv hk =>
      have hgo : F.Follows (f (u.kind == .elseWord)) (g (u.kind == .elseWord)) s r := by
        cases helse : u.kind == .elseWord with
        | true =>
            have helse := beq_iff_eq.mp helse
            exact htrue u (Tape.beyond_of_clause hu (by simp [helse])) helse
        | false => exact hfalse
      refine hgo.of_eq ?_ ?_
      · rw [refusal_elseFollows, hu]
      · simp only [play_elseFollows, hv, hk]
  | fault he =>
      refine Passes.follows fun x s' hx => ?_
      rw [refusal_elseFollows, he] at hx
      cases hx
  | parted hu hv hs =>
      by_cases hold : F.old.kind = .elseWord
      · have hne : F.old.kind ≠ .newline := by simp [hold]
        refine Passes.follows fun x s' hx => ?_
        rw [refusal_elseFollows, hu] at hx
        exact hpass (Tape.beyond_of_clause hu hne) hold (hs hne) x s' (by simpa [hold] using hx)
      · have hnew : F.new.kind ≠ .elseWord := new_ne hold (Or.inr (Or.inl rfl))
        refine hfalse.of_eq ?_ ?_
        · simp only [refusal_elseFollows, hu, beq_eq_false_iff_ne.mpr hold]
        · simp only [play_elseFollows, hv, beq_eq_false_iff_ne.mpr hnew]

/-- Looking at the token behind the next, in brackets that ignore line feeds. -/
theorem lookSecond {f g : Token → Parse ω} {u : Token} (h : F.At c ls prev n s r)
    (hfree : ls.head? = some .free) (hu : s.front = .ok u) (hk : u.kind ≠ .eof)
    (hstep : (c.step u.kind).header = false) (hb : F.Before s)
    (hf : ∀ v w, s.past.front = .ok v → r.past.front = .ok w → w.kind = v.kind →
      F.Follows (f v) (g w) s r)
    (hparted : s.past.front = .ok F.old → r.past.front = .ok F.new → ¬ F.Before s.past →
      F.Follows (f F.old) (g F.new) s r) :
    F.Follows (Parse.lookSecond.bind f) (Parse.lookSecond.bind g) s r := by
  obtain ⟨m, rfl⟩ := h.exists_succ
  cases h.fronts with
  | parted _ hb' => exact absurd hb hb'
  | @common u' v hu' hv huv hk' _ hadj hpast =>
      rw [hu] at hu'
      cases hu'
      have hpast := hpast m rfl
      have hfree' : s.past.isFree = true ∧ r.past.isFree = true := by
        rw [hpast.isFree.1, hpast.isFree.2, hfree]
        exact ⟨rfl, rfl⟩
      have hfront : s.past.front = s.past.beyond ∧ r.past.front = r.past.beyond := by
        rw [Tape.front, Tape.front, Tape.shown, Tape.shown, if_pos hfree'.1, if_pos hfree'.2]
        exact ⟨rfl, rfl⟩
      have hv' : v.kind ≠ .eof := by rwa [huv.kind]
      have hgo {w w' : Token} (hw : s.past.front = .ok w) (hw' : r.past.front = .ok w')
          (hgo : F.Follows (f w) (g w') s r) :
          F.Follows (Parse.lookSecond.bind f) (Parse.lookSecond.bind g) s r := by
        refine hgo.of_eq ?_ ?_
        · simp [Parse.lookSecond, Parse.bind, Tape.ahead, hu, hk, hw]
        · simp [Parse.lookSecond, Parse.bind, Tape.ahead, hv, hv', hw']
      cases hpast.beyonds hstep with
      | same hw hw' hkind =>
          rw [← hfront.1] at hw
          rw [← hfront.2] at hw'
          exact hgo hw hw' (hf _ _ hw hw' hkind)
      | fault he =>
          refine Passes.follows fun x s' hx => ?_
          rw [← hfront.1] at he
          simp [Parse.lookSecond, Parse.bind, Tape.ahead, hu, hk, he] at hx
      | parted hw hw' hs =>
          rw [← hfront.1] at hw
          rw [← hfront.2] at hw'
          refine hgo hw hw' (hparted hw hw' ?_)
          have hshown : s.past.shown.tokens = F.stem := by
            rw [Tape.shown, if_pos hfree'.1]
            exact hs
          rw [Before, hshown]
          exact Nat.lt_irrefl _

end At

/-! ## The second bracket of an element subscript -/

/-- What a parse does about a token that should be the second bracket behind another. -/
theorem faces_secondBracket {t u : Token} {v : Reply} {f : Unit → Parse ω}
    (h : ((Grammar.secondBracket t).bind f).Faces u v) :
    (u.kind = .rbracket ∧ u.offset = t.offset + 1) ∧ v = .taken ∨
      ¬ (u.kind = .rbracket ∧ u.offset = t.offset + 1) ∧ v = .refused [.token .rbracket] := by
  simp only [Grammar.secondBracket, bind_eq_bind, Parse.look, Parse.bind, Faces] at h
  split at h
  · rename_i hc
    exact Or.inl ⟨hc, h⟩
  · rename_i hc
    exact Or.inr ⟨hc, h⟩

/-- Where the sources part behind the first bracket that closes an element subscript, the second is
taken if it adjoins the first, in either source. -/
theorem lawful_secondBracket {f g : Unit → Parse ω} {t t' : Token}
    (hopen : F.scope.opened.head? = some .half) (hlast : (t, t') ∈ F.last)
    (ht : t.kind = .rbracket) :
    F.Lawful true ((Grammar.secondBracket t).bind f) ((Grammar.secondBracket t').bind g) := by
  have hrefused {x} (hx : ((Grammar.secondBracket t).bind f).Faces F.old (.refused x)) :
      ¬ (F.old.kind = .rbracket ∧ F.old.offset = t.offset + 1) ∧ x = [.token .rbracket] := by
    rcases faces_secondBracket hx with ⟨-, hx⟩ | ⟨hc, hx⟩
    · cases hx
    · cases hx
      exact ⟨hc, rfl⟩
  refine ⟨fun u hu => ?_, fun u hk hu => ?_, fun _ hfree => ?_, fun x hx y hy => ?_,
    fun _ hagain x hx v hv => ?_, fun _ x hx hfits v hv => ?_⟩
  · rcases faces_secondBracket hu with ⟨-, hu⟩ | ⟨-, hu⟩ <;> cases hu
  · rcases faces_secondBracket hu with ⟨hc, -⟩ | ⟨-, hu⟩
    · rw [hk] at hc
      cases hc.1
    · cases hu
  · cases hfree
  · obtain ⟨-, rfl⟩ := hrefused hx
    obtain rfl := List.mem_singleton.mp hy
    rfl
  · obtain ⟨hc, rfl⟩ := hrefused hx
    rcases faces_secondBracket hv with ⟨hc', -⟩ | ⟨-, hv⟩
    · have hold : F.old.kind = .rbracket := hagain.like.kind.symm.trans hc'.1
      have halong := hagain.alongside (t, t') hlast hold
      exact absurd ⟨hold, halong.mpr hc'.2⟩ hc
    · exact hv
  · obtain ⟨-, rfl⟩ := hrefused hx
    obtain ⟨y, hy, hk⟩ := hfits.accepts
    obtain rfl := List.mem_singleton.mp hy
    have hoffset := hfits.adjoins hk hopen (t, t') hlast ht
    rcases faces_secondBracket hv with ⟨-, hv⟩ | ⟨hc, -⟩
    · exact Or.inl hv
    · exact absurd ⟨hk, hoffset⟩ hc

/-- Taking the second bracket that closes an element subscript. -/
theorem At.secondBracket {f g : Unit → Parse ω} {t t' : Token} {o : List Bracket}
    (h : F.At ⟨.half :: o, false⟩ ls (some (t, t')) n s r) (hfree : ls.head? = some .free)
    (ht : t.kind = .rbracket)
    (hf : ∀ m prev, n = m + 1 → F.At ⟨o, false⟩ ls prev m s.past r.past →
      F.Follows (f ()) (g ()) s.past r.past) :
    F.Follows ((Grammar.secondBracket t).bind f) ((Grammar.secondBracket t').bind g) s r := by
  cases h.fronts with
  | @common u v hu hv huv hk hb hadj hpast =>
      refine look_again
        (f := fun u => (if u.kind = .rbracket ∧ u.offset = t.offset + 1 then Parse.drop
          else .reject [.token .rbracket]).bind f)
        (g := fun u => (if u.kind = .rbracket ∧ u.offset = t'.offset + 1 then Parse.drop
          else .reject [.token .rbracket]).bind g) hu hv ?_
      have halong := hadj (t, t') rfl
      by_cases hc : u.kind = .rbracket ∧ u.offset = t.offset + 1
      · have hc' : v.kind = .rbracket ∧ v.offset = t'.offset + 1 :=
          ⟨huv.kind.trans hc.1, (halong hc.1).mp hc.2⟩
        rw [if_pos hc, if_pos hc']
        refine h.drop hu hk fun m prev' hm hpast => ?_
        rw [hc.1] at hpast
        exact hf m prev' hm hpast
      · rw [if_neg hc]
        exact hb.passes_reject.follows
  | parted hparted hb =>
      have hopen : F.scope.opened.head? = some .half := by rw [hparted.scope]; rfl
      have hisFree : s.isFree = true ∧ r.isFree = true := by
        rw [h.isFree.1, h.isFree.2, hfree]
        exact ⟨rfl, rfl⟩
      exact follows_of_lawful hparted h.ending h.ending' hisFree.1 hisFree.2
        (lawful_secondBracket hopen hparted.last ht)

end Parting

end RSource
