import RSource.Proofs.Completeness
import RSource.Proofs.Relocation
import RSource.Proofs.Replies
import RSource.Proofs.Scope

/-!
# Two sources that part at a token

The tokens of two sources are alike up to a token at which they part. A parse does the same on both
until it faces that token, and what it does about the token is the same in both, or as much better
as the other token is one that it expects.

* `Parting` — what both sources go on with where they part.
* `Parting.Shared`, `Parting.At` — the tokens before that point, and two tapes at the same one.
* `Parting.Lawful` — **what a parse may do about the tokens at which the sources part**.
* `Parting.Meets`, `Parting.Follows` — a parse that is refused at the one token faces the other.
* `At.fronts` — **two tapes have tokens that are alike in front, or the sources part there**.
* `follows_of_lawful` — where the sources part, a lawful parse faces both tokens.
-/

namespace RSource

/-- Two tokens of one kind and lexeme. -/
abbrev Like (t u : Token) : Prop := Twin Location.toStart Location.toStart t u

/-- The token comes next: in front of the others, or as the end of the input behind none. -/
def Heads (ts : List Token) (ending : Except LexError Token) (t : Token) : Prop :=
  (∃ us, ts = t :: us) ∨ ts = [] ∧ ending = .ok t

/-- A closing bracket adjoins what stands before it in both sources or in neither. -/
def Alongside (p q : Token × Token) : Prop :=
  q.1.kind = .rbracket → (q.1.offset = p.1.offset + 1 ↔ q.2.offset = p.2.offset + 1)

/-- Whether a continuation that a parse expects is a token of the kind. -/
def Continuation.Accepts : Continuation → TokenKind → Prop
  | token kind, k => k = kind
  | expression, k | identifier, k => k = .ident ∨ k = .quotedIdent
  | statementEnd, k => k = .semicolon

/-- The kinds of tokens of which a parse ever expects one. -/
def TokenKind.isExpected : TokenKind → Bool
  | .lparen | .rparen | .rbrace | .rbracket | .comma | .inWord => true
  | _ => false

theorem TokenKind.ne_of_isExpected {k : TokenKind} (h : k.isExpected = true) :
    k ≠ .eof ∧ k ≠ .newline ∧ k ≠ .elseWord ∧ k ≠ .eqAssign := by
  cases k <;> simp_all [isExpected]

/-- Whether a parse ever expects the continuation. -/
def Continuation.IsExpected : Continuation → Prop
  | token kind => kind.isExpected = true
  | expression | identifier | statementEnd => True

/-- What two sources go on with where they part. -/
structure Parting where
  stem : List Token
  stemEnd : Except LexError Token
  branch : List Token
  branchEnd : Except LexError Token
  /-- The next token of the first source. -/
  old : Token
  /-- The next token of the second source. -/
  new : Token
  /-- The brackets that are open where the sources part. -/
  scope : Scope
  /-- The tokens before that point, line feeds left out. -/
  last : Option (Token × Token)
  heads : Heads stem stemEnd old
  heads' : Heads branch branchEnd new
  /-- The new token is like the old one, or a parse does not look for it past other tokens. -/
  word : Like old new ∨ new.kind ≠ .newline ∧ new.kind ≠ .elseWord ∧ new.kind ≠ .eqAssign
  /-- The old token is no line feed, but for one before the parenthesis of a header; or else the
  sources do not part at all. -/
  apart : (old.kind = .newline → scope.header = true) ∨ branch = stem ∧ branchEnd = stemEnd

namespace Parting

variable (F : Parting)

/-- The tokens of both sources before the point where they part, behind the last token taken. -/
structure Shared (c : Scope) (prev : Option (Token × Token)) (ps : List (Token × Token)) :
    Prop where
  like : ∀ p ∈ ps, Like p.1 p.2
  scope : c.run (ps.map (·.1.kind)) = F.scope
  visible : ∀ p ∈ prev, p.1.kind ≠ .newline
  last : ((prev.toList ++ ps).filter (·.1.kind ≠ .newline)).getLast? = F.last
  alongside : (prev.toList ++ ps).Pairwise Alongside

/-- Two tapes at the same token, with the layouts of the brackets that have been entered, the last
token taken and a bound on the tokens left. -/
structure At (c : Scope) (ls : List Layout) (prev : Option (Token × Token)) (n : Nat)
    (s r : Tape) : Prop where
  layouts : s.layouts = ls
  layouts' : r.layouts = ls
  ending : s.ending = F.stemEnd
  ending' : r.ending = F.branchEnd
  room : s.Within n
  room' : r.Within n
  tokens : ∃ ps, F.Shared c prev ps ∧ s.tokens = ps.map (·.1) ++ F.stem ∧
    r.tokens = ps.map (·.2) ++ F.branch

/-- Both tapes have come to the point where the sources part: nothing but hidden line feeds stands
before it. -/
structure Parted (c : Scope) (prev : Option (Token × Token)) (s r : Tape) : Prop where
  scope : F.scope = c
  last : F.last = prev
  tokens : ∃ lines lines', s.tokens = lines ++ F.stem ∧ r.tokens = lines' ++ F.branch ∧
    (∀ l ∈ lines ++ lines', l.kind = .newline) ∧
    (lines = [] ∧ lines' = [] ∨ s.isFree = true ∧ r.isFree = true)

/-- A visible token stands before the point where the sources part. -/
def Before (s : Tape) : Prop := F.stem.length < s.shown.tokens.length

/-- The new token is one that is expected; and if it is the second bracket that closes an element
subscript, it adjoins the first. -/
structure Fits (expected : List Continuation) : Prop where
  accepts : ∃ x ∈ expected, x.Accepts F.new.kind
  adjoins : F.new.kind = .rbracket → F.scope.opened.head? = some .half →
    ∀ p ∈ F.last, p.1.kind = .rbracket → F.new.offset = p.2.offset + 1

/-- The new token is the old one again. -/
structure Again : Prop where
  like : Like F.old F.new
  alongside : ∀ p ∈ F.last, Alongside p (F.old, F.new)

/-- What two parses may do about the tokens at which the sources part, if line feeds are ignored
(`free`) or not. -/
structure Lawful {ω : Type} (free : Bool) (p q : Parse ω) : Prop where
  /-- The brackets stay as they are until the token is taken. -/
  steady : ∀ u, ¬ p.Faces u .moved
  /-- The end of the input is not taken. -/
  end_left : ∀ u, u.kind = .eof → ¬ p.Faces u .taken
  /-- A line feed is refused only before the parenthesis of a header. -/
  lines : F.old.kind = .newline → free = false → ∀ x, p.Faces F.old (.refused x) →
    F.scope.header = true
  /-- What is expected instead of a token is known beforehand. -/
  usual : ∀ x, p.Faces F.old (.refused x) → ∀ y ∈ x, y.IsExpected
  /-- A token that is refused is refused in the second source as well. -/
  same : (free = true → F.old.kind ≠ .newline) → F.Again →
    ∀ x, p.Faces F.old (.refused x) → ∀ o, q.Faces F.new o → o = .refused x
  /-- A token that is expected instead is not refused. -/
  next : (free = true → F.old.kind ≠ .newline) → ∀ x, p.Faces F.old (.refused x) → F.Fits x →
    ∀ o, q.Faces F.new o → o = .taken ∨ o = .returned ∨ o = .broken

/-- The second parse comes to the new token, as the first comes to the old one and refuses it. -/
structure Meets {ω : Type} (q : Parse ω) (r : Tape) (x : List Continuation) : Prop where
  lines : F.old.kind = .newline → F.scope.header = true
  usual : ∀ y ∈ x, y.IsExpected
  met : ∃ (p' q' : Parse ω) (r' : Tape), q.play r = q'.play r' ∧ r'.front = .ok F.new ∧
    r'.past.tokens = F.branch.tail ∧ r'.ending = F.branchEnd ∧
    p'.Faces F.old (.refused x) ∧
    (F.Again → ∀ o, q'.Faces F.new o → o = .refused x) ∧
    (F.Fits x → ∀ o, q'.Faces F.new o → o = .taken ∨ o = .returned ∨ o = .broken)

/-- The parse of the first source is not refused at the point where the sources part. -/
def Passes {ω : Type} (p : Parse ω) (s : Tape) : Prop :=
  ∀ x s', p.refusal s = some (x, s') → s'.shown.tokens ≠ F.stem

/-- If the parse of the first source is refused at the point where the sources part, then that of
the second comes to it as well. -/
def Follows {ω : Type} (p q : Parse ω) (s r : Tape) : Prop :=
  ∀ x s', p.refusal s = some (x, s') → s'.shown.tokens = F.stem → F.Meets q r x

variable {F} {ω : Type} {c : Scope} {ls : List Layout} {prev : Option (Token × Token)} {n : Nat}
  {s r : Tape} {p q : Parse ω}

/-- The new token is no word that a parse looks for past other tokens, unless the old one is. -/
theorem new_ne {k : TokenKind} (h : F.old.kind ≠ k)
    (hk : k = .newline ∨ k = .elseWord ∨ k = .eqAssign) : F.new.kind ≠ k := by
  rcases F.word with hlike | ⟨hline, helse, heq⟩
  · rwa [hlike.kind]
  · rcases hk with rfl | rfl | rfl <;> assumption

/-- Parses that go on in the same way follow each other in the same way. -/
theorem Follows.of_eq {p' q' : Parse ω} {s' r' : Tape} (h : F.Follows p' q' s' r')
    (hp : p.refusal s = p'.refusal s') (hq : q.play r = q'.play r') : F.Follows p q s r := by
  intro x s'' hx hstem
  rw [hp] at hx
  obtain ⟨hlines, husual, p'', q'', r'', hplay, hmet⟩ := h x s'' hx hstem
  exact ⟨hlines, husual, p'', q'', r'', hq.trans hplay, hmet⟩

theorem Passes.follows (h : F.Passes p s) : F.Follows p q s r :=
  fun x s' hp hs => absurd hs (h x s' hp)

/-- A parse that has less left than the first source where the sources part is past that point. -/
theorem passes_of_lt (h : s.tokens.length < F.stem.length) : F.Passes p s := by
  intro x s' hp hs
  have hle := (Parse.refusal_suffix hp).1.length_le
  have hshown := s'.shown_suffix.length_le
  rw [hs] at hshown
  omega

/-! ## Where the sources part -/

theorem Shared.drop {ns ps : List (Token × Token)} (h : F.Shared c prev (ns ++ ps))
    (hn : ∀ p ∈ ns, p.1.kind = .newline) : F.Shared c prev ps := by
  have hrun : c.run (ns.map (·.1.kind)) = c := c.run_newlines (List.forall_mem_map.mpr hn)
  have hfilter : ns.filter (·.1.kind ≠ .newline) = [] :=
    List.filter_eq_nil_iff.mpr fun p hp => by simp [hn p hp]
  refine ⟨fun p hp => h.like p (List.mem_append_right _ hp), ?_, h.visible, ?_, ?_⟩
  · have hscope := h.scope
    rwa [List.map_append, Scope.run_append, hrun] at hscope
  · have hlast := h.last
    rw [List.filter_append, List.filter_append, hfilter, List.nil_append] at hlast
    rw [List.filter_append]
    exact hlast
  · exact h.alongside.sublist
      (List.Sublist.append (List.Sublist.refl _) (List.sublist_append_right ns ps))

theorem Shared.step {u v : Token} {ps : List (Token × Token)}
    (h : F.Shared c prev ((u, v) :: ps)) (hk : u.kind ≠ .newline) :
    F.Shared (c.step u.kind) (some (u, v)) ps := by
  refine ⟨fun p hp => h.like p (List.mem_cons_of_mem _ hp), h.scope, by simpa using hk, ?_, ?_⟩
  · have hlast := h.last
    rw [List.filter_append, List.filter_cons_of_pos (by simpa), List.getLast?_append,
      List.getLast?_cons, Option.some_or] at hlast
    simpa [hk, List.getLast?_cons] using hlast
  · exact h.alongside.sublist (List.sublist_append_right prev.toList _)

/-- The line feeds in front are line feeds in both sources. -/
theorem Shared.lines {ns ps : List (Token × Token)} (h : F.Shared c prev (ns ++ ps))
    (hn : ∀ p ∈ ns, p.1.kind = .newline) :
    ∀ l ∈ ns.map (·.1) ++ ns.map (·.2), l.kind = .newline := by
  intro l hl
  rcases List.mem_append.mp hl with hl | hl
  · obtain ⟨p, hp, rfl⟩ := List.mem_map.mp hl
    exact hn p hp
  · obtain ⟨p, hp, rfl⟩ := List.mem_map.mp hl
    exact (h.like p (List.mem_append_left _ hp)).kind.trans (hn p hp)

theorem Shared.nil (h : F.Shared c prev []) : F.scope = c ∧ F.last = prev := by
  refine ⟨h.scope.symm, ?_⟩
  rw [← h.last]
  cases prev with
  | none => rfl
  | some p =>
      have hvisible := h.visible p rfl
      simp [hvisible]

/-- Some pairs of tokens are line feeds, and then others. -/
theorem exists_lines (ps : List (Token × Token)) :
    ∃ ns rest, ns ++ rest = ps ∧ (∀ p ∈ ns, p.1.kind = .newline) ∧
      ∀ p ∈ rest.head?, p.1.kind ≠ .newline := by
  let isLine (p : Token × Token) : Bool := p.1.kind == .newline
  refine ⟨ps.takeWhile isLine, ps.dropWhile isLine, List.takeWhile_append_dropWhile,
    fun p hp => ?_, fun p hp => ?_⟩
  · simpa [isLine] using List.mem_takeWhile_imp hp
  · have hhead := List.head?_dropWhile_not isLine ps
    rw [hp] at hhead
    simpa [isLine] using hhead

theorem dropWhile_lines {lines ts : List Token} (hl : ∀ l ∈ lines, l.kind = .newline) :
    (lines ++ ts).dropWhile (·.kind == .newline) = ts.dropWhile (·.kind == .newline) :=
  List.dropWhile_append_of_pos fun l h => by simp [hl l h]

theorem front_of_heads {s : Tape} {t : Token} {ts : List Token} (h : Heads ts s.ending t)
    (hs : s.shown.tokens = ts) : s.front = .ok t := by
  rcases h with ⟨us, rfl⟩ | ⟨rfl, he⟩
  · exact Tape.head_cons hs
  · rw [Tape.front, Tape.head_nil hs, Tape.shown_ending, he]

/-- What is visible of a tape on which nothing but hidden line feeds stands before the others. -/
theorem shown_of_lines {s : Tape} {lines ts : List Token} {t : Token}
    (hs : s.tokens = lines ++ ts) (hl : ∀ l ∈ lines, l.kind = .newline)
    (hfree : lines = [] ∨ s.isFree = true) (ht : Heads ts s.ending t)
    (hv : s.isFree = true → t.kind ≠ .newline) : s.shown.tokens = ts := by
  rw [Tape.shown_tokens]
  split
  · rename_i hf
    rw [hs, dropWhile_lines hl]
    rcases ht with ⟨us, rfl⟩ | ⟨rfl, -⟩
    · simp [hv hf]
    · rfl
  · rename_i hf
    rw [hs, hfree.resolve_right hf, List.nil_append]

theorem length_shown_le {s : Tape} {lines ts : List Token} (hs : s.tokens = lines ++ ts)
    (hl : ∀ l ∈ lines, l.kind = .newline) (hfree : lines = [] ∨ s.isFree = true) :
    s.shown.tokens.length ≤ ts.length := by
  rw [Tape.shown_tokens]
  split
  · rw [hs, dropWhile_lines hl]
    exact (List.dropWhile_suffix _).length_le
  · rename_i hf
    rw [hs, hfree.resolve_right hf, List.nil_append]

/-- What the next visible tokens of two tapes are: tokens that are alike, behind which both tapes
stand at the same token again; or those at which the sources part. -/
inductive Fronts (F : Parting) (c : Scope) (ls : List Layout) (prev : Option (Token × Token))
    (n : Nat) (s r : Tape) : Prop where
  | common {u v : Token} (hu : s.front = .ok u) (hv : r.front = .ok v) (h : Like u v)
      (hk : u.kind ≠ .eof) (hb : F.Before s) (hadj : ∀ p ∈ prev, Alongside p (u, v))
      (hpast : ∀ m, n = m + 1 → F.At (c.step u.kind) ls
        (if u.kind = .newline then prev else some (u, v)) m s.past r.past)
  | parted (h : F.Parted c prev s r) (hb : ¬ F.Before s)

theorem Parted.not_before (h : F.Parted c prev s r) : ¬ F.Before s := by
  obtain ⟨lines, lines', hs, -, hl, hfree⟩ := h.tokens
  have hle := length_shown_le hs (fun l h => hl l (List.mem_append_left _ h))
    (hfree.imp (·.1) (·.1))
  unfold Before
  omega

namespace At

theorem isFree (h : F.At c ls prev n s r) :
    s.isFree = (ls.head? == some .free) ∧ r.isFree = (ls.head? == some .free) := by
  rw [Tape.isFree, Tape.isFree, h.layouts, h.layouts']
  exact ⟨rfl, rfl⟩

theorem exists_succ (h : F.At c ls prev n s r) : ∃ m, n = m + 1 := h.room.exists_succ

theorem mono {m : Nat} (h : F.At c ls prev n s r) (hm : n ≤ m) : F.At c ls prev m s r :=
  { h with room := Nat.lt_of_lt_of_le h.room hm, room' := Nat.lt_of_lt_of_le h.room' hm }

/-- The tokens of two tapes, with the hidden line feeds apart. -/
theorem split (h : F.At c ls prev n s r) :
    ∃ ns ps, (∀ p ∈ ns, p.1.kind = .newline) ∧ F.Shared c prev (ns ++ ps) ∧
      s.tokens = ns.map (·.1) ++ (ps.map (·.1) ++ F.stem) ∧
      r.tokens = ns.map (·.2) ++ (ps.map (·.2) ++ F.branch) ∧
      (ns = [] ∨ s.isFree = true) ∧
      (s.isFree = true → ∀ p ∈ ps.head?, p.1.kind ≠ .newline) := by
  obtain ⟨ps, hps, hs, hr⟩ := h.tokens
  cases hf : s.isFree with
  | false => exact ⟨[], ps, by simp, hps, hs, hr, Or.inl rfl, by simp⟩
  | true =>
      obtain ⟨ns, rest, rfl, hns, hhead⟩ := exists_lines ps
      refine ⟨ns, rest, hns, hps, ?_, ?_, Or.inr rfl, fun _ => hhead⟩
      · rw [hs, List.map_append, List.append_assoc]
      · rw [hr, List.map_append, List.append_assoc]

/-- Behind tokens that are alike both tapes stand at the same token again. -/
theorem behind {m : Nat} {u v : Token} {ps : List (Token × Token)}
    (h : F.At c ls prev (m + 1) s r) (hshared : F.Shared c prev ((u, v) :: ps))
    (hu : s.shown.tokens = u :: (ps.map (·.1) ++ F.stem))
    (hv : r.shown.tokens = v :: (ps.map (·.2) ++ F.branch)) (hk : u.kind ≠ .eof) :
    F.At (c.step u.kind) ls (if u.kind = .newline then prev else some (u, v)) m s.past r.past := by
  have hkind : v.kind = u.kind := (hshared.like (u, v) (List.mem_cons_self ..)).kind
  refine ⟨by rw [Tape.past_layouts, h.layouts], by rw [Tape.past_layouts, h.layouts'],
    by rw [Tape.past_ending, h.ending], by rw [Tape.past_ending, h.ending'],
    h.room.past_lt (Tape.head_cons hu) hk, h.room'.past_lt (Tape.head_cons hv) (by rwa [hkind]),
    ps, ?_, ?_, ?_⟩
  · split
    · rename_i hnewline
      rw [hnewline, Scope.step_newline]
      have hcons : F.Shared c prev ([(u, v)] ++ ps) := hshared
      exact hcons.drop (by simpa using hnewline)
    · rename_i hnewline
      exact hshared.step hnewline
  · rw [Tape.past_tokens, hu]
    rfl
  · rw [Tape.past_tokens, hv]
    rfl

/-- **Two tapes at the same token have tokens that are alike in front, or the sources part
there.** -/
theorem fronts (h : F.At c ls prev n s r) : F.Fronts c ls prev n s r := by
  obtain ⟨ns, ps, hns, hshared, hs, hr, hfree, hhead⟩ := h.split
  have hsame : r.isFree = s.isFree := by rw [h.isFree.1, h.isFree.2]
  have hlines := hshared.lines hns
  have hfree' : ns.map (·.1) = [] ∨ s.isFree = true := hfree.imp_left (by rintro rfl; rfl)
  have hfree'' : ns.map (·.2) = [] ∨ r.isFree = true := by
    rw [hsame]
    exact hfree.imp_left (by rintro rfl; rfl)
  cases ps with
  | nil =>
      rw [List.append_nil] at hshared
      have hend := (Shared.drop (List.append_nil ns ▸ hshared) hns).nil
      have hparted : F.Parted c prev s r := by
        refine ⟨hend.1, hend.2, ns.map (·.1), ns.map (·.2), hs, hr, hlines, ?_⟩
        rcases hfree with rfl | hf
        · exact Or.inl ⟨rfl, rfl⟩
        · exact Or.inr ⟨hf, hsame.trans hf⟩
      exact .parted hparted hparted.not_before
  | cons p ps =>
      obtain ⟨u, v⟩ := p
      have huv : Like u v := hshared.like (u, v) (by simp)
      have hdrop := hshared.drop hns
      have hu : s.isFree = true → u.kind ≠ .newline := fun hf => hhead hf (u, v) rfl
      have hv : r.isFree = true → v.kind ≠ .newline := by
        rw [hsame, huv.kind]
        exact hu
      have hshown : s.shown.tokens = u :: (ps.map (·.1) ++ F.stem) :=
        shown_of_lines hs (fun l hl => hlines l (List.mem_append_left _ hl)) hfree'
          (Or.inl ⟨_, rfl⟩) hu
      have hshown' : r.shown.tokens = v :: (ps.map (·.2) ++ F.branch) :=
        shown_of_lines hr (fun l hl => hlines l (List.mem_append_right _ hl)) hfree''
          (Or.inl ⟨_, rfl⟩) hv
      have hk : u.kind ≠ .eof := by
        have hmem : u ∈ s.shown.tokens := by rw [hshown]; exact List.mem_cons_self ..
        exact (s.shown.spelled u hmem).ne_eof
      refine .common (Tape.head_cons hshown) (Tape.head_cons hshown') huv hk ?_ ?_ ?_
      · rw [Before, hshown, List.length_cons, List.length_append]
        omega
      · intro p hp
        have hpair := hdrop.alongside
        rw [hp, Option.toList_some] at hpair
        exact List.rel_of_pairwise_cons hpair (List.mem_cons_self ..)
      · rintro m rfl
        exact h.behind hdrop hshown hshown' hk

end At

/-- Where the sources part, the parse of the second one faces the new token, if that of the first
one is refused there. -/
theorem follows_of_lawful {free : Bool} (h : F.Parted c prev s r) (hs : s.ending = F.stemEnd)
    (hr : r.ending = F.branchEnd) (hf : s.isFree = free) (hf' : r.isFree = free)
    (hl : F.Lawful free p q) : F.Follows p q s r := by
  intro x s' hp hstem
  obtain ⟨lines, lines', htokens, htokens', hlines, hfree⟩ := h.tokens
  have hle := length_shown_le htokens (fun l h => hlines l (List.mem_append_left _ h))
    (hfree.imp (·.1) (·.1))
  cases hu : s.front with
  | error e => exact absurd (Parse.faces_of_fault hp hu F.old) (hl.steady F.old)
  | ok u =>
      rcases Parse.faces_of_refusal hp hu with ⟨hrefused, -, hshown⟩ | ⟨htaken, hsuffix⟩ | hmoved
      · rw [hstem] at hshown
        have hold : u = F.old := by
          have hfront := front_of_heads (hs ▸ F.heads) hshown.symm
          rw [hu] at hfront
          exact Except.ok.inj hfront
        subst hold
        have hvisible : free = true → F.old.kind ≠ .newline := by
          rintro rfl
          exact Tape.ne_newline_of_front hu hf
        have hvisible' : r.isFree = true → F.new.kind ≠ .newline :=
          fun hf => new_ne (hvisible (hf'.symm.trans hf)) (Or.inl rfl)
        have hshown' := shown_of_lines htokens' (fun l h => hlines l (List.mem_append_right _ h))
          (hfree.imp (·.2) (·.2)) (hr ▸ F.heads') hvisible'
        refine ⟨fun hn => ?_, hl.usual x hrefused, p, q, r, rfl,
          front_of_heads (hr ▸ F.heads') hshown', ?_, hr, hrefused,
          fun hagain => hl.same hvisible hagain x hrefused,
          fun hfits => hl.next hvisible x hrefused hfits⟩
        · exact hl.lines hn (by cases free with
            | false => rfl
            | true => exact absurd hn (hvisible rfl)) x hrefused
        · rw [Tape.past_tokens, hshown']
      · -- The token in front is taken, so less is left than behind the point where they part.
        have hlt := hsuffix.length_le
        have hshown := s'.shown_suffix.length_le
        rw [hstem] at hshown
        rw [Tape.past_tokens, List.length_tail] at hlt
        have hnil : s.shown.tokens = [] := List.length_eq_zero_iff.mp (by omega)
        have hend : u.kind = .eof := by
          rw [Tape.front, Tape.head_nil hnil] at hu
          exact s.shown.ending_eof u hu
        exact absurd htaken (hl.end_left u hend)
      · exact absurd hmoved (hl.steady u)

end Parting

end RSource
