import Mathlib.Data.List.Induction
import RSource.Proofs.Concrete
import RSource.Proofs.Remaining
import RSource.Proofs.Scope

/-!
# Tokens split into statements

Where a line feed ends a statement, said of the tokens and the brackets around them alone.

* `Scope.continues` — the tokens behind which a statement goes on in the next line.
* `Unbroken` — no line feed in a statement is one that ends it.
* `Splits` — **tokens split into statements**: line feeds and semicolons between them, or nothing,
  and then the next statement begins with a token that goes on with no other.
* `Spot`, `Spot.run` — where a token stands: how many come before, whether the last of them goes on
  in the next line, and the brackets around.
* `Spot.Flows` — each line feed among some tokens may stand there.
* `Spot.Flows.unbroken` — **tokens whose line feeds all may stand there are unbroken**.
-/

namespace RSource

/-- Whether a statement goes on in the next line behind the token: an operand behind its operator,
a body behind its header or its word. -/
def Scope.continues (c : Scope) (k : TokenKind) : Bool :=
  (Power.ofKind? k).isSome || (UnaryOp.ofKind? k).isSome || k == .question || k == .elseWord
    || k == .repeatWord || (k == .rparen && c.opened.head? == some .header)

/-- The next token that is no line feed is an `else`. -/
def BeforeElse (ts : List Token) : Prop :=
  ∃ lines t us, ts = lines ++ t :: us ∧ (∀ l ∈ lines, l.kind = .newline) ∧ t.kind = .elseWord

/-- The last token that is no line feed goes on in the next line. -/
def Continued (c : Scope) (ts : List Token) : Prop :=
  ∃ us t lines, ts = us ++ t :: lines ∧ (∀ l ∈ lines, l.kind = .newline) ∧
    (c.run (us.map (·.kind))).continues t.kind = true

/-- Each line feed in a statement stands inside a bracket that the statement opens, or behind a
token that goes on in the next line, or in front of an `else` where some bracket is open. -/
def Unbroken (c : Scope) (ts : List Token) : Prop :=
  ∀ before l after, ts = before ++ l :: after → l.kind = .newline →
    (c.run (before.map (·.kind))).opened = c.opened →
    Continued c before ∨ (c.opened ≠ [] ∧ BeforeElse after)

/-- Neither the first token nor the last one only stands between others. -/
def Trimmed (ts : List Token) : Prop :=
  (∃ t ∈ ts.head?, t.kind.isLayout = false) ∧ ∃ t ∈ ts.getLast?, t.kind.isLayout = false

/-- **Tokens in the scope split into statements**, up to the end or to a closing brace. Line feeds
and semicolons separate them; where none does, the next token opens no bracket behind an operand and
is no operator between two. -/
inductive Splits (c : Scope) : List Expression → List Token → Prop where
  | ending (ho : c.opened = []) : Splits c [] []
  | closing {t : Token} {ts : List Token} (ho : c.opened ≠ []) (ht : t.kind = .rbrace) :
      Splits c [] (t :: ts)
  | gap {es : List Expression} {t : Token} {ts : List Token}
      (ht : t.kind = .newline ∨ t.kind = .semicolon) (h : Splits c es ts) : Splits c es (t :: ts)
  | statement {e : Expression} {es : List Expression} {ts us : List Token}
      (hf : Fits e.items (significant ts)) (ht : Trimmed ts) (hu : Unbroken c ts)
      (hq : ∀ u ∈ us.head?, Brackets.ofKind? u.kind = none ∧ Power.ofKind? u.kind = none)
      (h : Splits c es us) : Splits c (e :: es) (ts ++ us)

theorem Splits.gaps {c : Scope} {es : List Expression} {lines ts : List Token}
    (h : Splits c es ts) (hl : ∀ l ∈ lines, l.kind = .newline ∨ l.kind = .semicolon) :
    Splits c es (lines ++ ts) := by
  induction lines with
  | nil => exact h
  | cons l lines ih =>
      refine .gap (hl l (List.mem_cons_self ..)) (ih ?_)
      intro m hm
      exact hl m (List.mem_cons_of_mem _ hm)

theorem BeforeElse.append {ts : List Token} (h : BeforeElse ts) (us : List Token) :
    BeforeElse (ts ++ us) := by
  obtain ⟨lines, t, vs, rfl, hl, ht⟩ := h
  exact ⟨lines, t, vs ++ us, by simp, hl, ht⟩

/-- No `else` is among tokens that only stand between others. -/
theorem BeforeElse.of_append {ts us : List Token} (h : BeforeElse (ts ++ us))
    (hu : ∀ u ∈ us, u.kind.isLayout = true) : BeforeElse ts := by
  obtain ⟨lines, t, vs, heq, hl, ht⟩ := h
  rcases List.append_eq_append_iff.mp heq with ⟨as, -, hus⟩ | ⟨bs, hts, htail⟩
  · have hmem := hu t (by rw [hus]; simp)
    rw [ht] at hmem
    cases hmem
  · cases bs with
    | nil =>
        have hmem := hu t (by rw [← List.nil_append us, ← htail]; simp)
        rw [ht] at hmem
        cases hmem
    | cons b bs =>
        obtain ⟨rfl, -⟩ := List.cons.inj htail
        exact ⟨lines, t, bs, hts, hl, ht⟩

/-- Without what only stands between tokens at their end, tokens stay unbroken. -/
theorem Unbroken.of_append {c : Scope} {ts us : List Token} (h : Unbroken c (ts ++ us))
    (hu : ∀ u ∈ us, u.kind.isLayout = true) : Unbroken c ts := by
  intro before l after hts hl ho
  have hall : ts ++ us = before ++ l :: (after ++ us) := by rw [hts]; simp
  rcases h before l (after ++ us) hall hl ho with hc | ⟨hne, he⟩
  · exact Or.inl hc
  · exact Or.inr ⟨hne, he.of_append hu⟩

/-- What only stands between other tokens is a line feed or a semicolon, unless it is a comment or
the end. -/
theorem Token.IsSpelled.separates {t : Token} (h : t.IsSpelled) (hk : t.kind.isLayout = true) :
    t.kind = .newline ∨ t.kind = .semicolon := by
  have hc := h.ne_comment
  have he := h.ne_eof
  revert hk hc he
  cases t.kind <;> simp [TokenKind.isLayout]

/-- Behind the last token that is part of an expression only others stand. -/
theorem exists_trimmed {ts : List Token} (h : ∃ t ∈ ts.head?, t.kind.isLayout = false) :
    ∃ us vs, ts = us ++ vs ∧ Trimmed us ∧ ∀ v ∈ vs, v.kind.isLayout = true := by
  induction ts using List.reverseRecOn with
  | nil =>
      obtain ⟨t, ht, -⟩ := h
      cases ht
  | append_singleton ts t ih =>
      cases hl : t.kind.isLayout with
      | false => exact ⟨ts ++ [t], [], by simp, ⟨h, t, by simp, hl⟩, by simp⟩
      | true =>
          have hts : ∃ u ∈ ts.head?, u.kind.isLayout = false := by
            cases ts with
            | nil =>
                obtain ⟨u, hu, hk⟩ := h
                cases hu
                rw [hl] at hk
                cases hk
            | cons u us => exact h
          obtain ⟨us, vs, rfl, htrim, hvs⟩ := ih hts
          refine ⟨us, vs ++ [t], by simp, htrim, ?_⟩
          intro v hv
          rcases List.mem_append.mp hv with hv | hv
          · exact hvs v hv
          · rw [List.mem_singleton.mp hv]
            exact hl

/-- A statement with the line feeds and semicolons at its end. -/
theorem Splits.untrimmed {c : Scope} {e : Expression} {es : List Expression} {ts us : List Token}
    (hf : Fits e.items (significant ts)) (ht : ∃ t ∈ ts.head?, t.kind.isLayout = false)
    (hs : ∀ t ∈ ts, t.IsSpelled) (hu : Unbroken c ts)
    (hq : ∀ u ∈ us.head?, Brackets.ofKind? u.kind = none ∧ Power.ofKind? u.kind = none)
    (h : Splits c es us) : Splits c (e :: es) (ts ++ us) := by
  obtain ⟨vs, ws, rfl, htrim, hlay⟩ := exists_trimmed ht
  have hgaps : ∀ w ∈ ws, w.kind = .newline ∨ w.kind = .semicolon := by
    intro w hw
    exact (hs w (List.mem_append_right _ hw)).separates (hlay w hw)
  have hquiet : ∀ w ∈ (ws ++ us).head?,
      Brackets.ofKind? w.kind = none ∧ Power.ofKind? w.kind = none := by
    intro w hw
    cases ws with
    | nil => exact hq w hw
    | cons x xs =>
        cases hw
        rcases hgaps w (List.mem_cons_self ..) with hk | hk <;> rw [hk] <;> exact ⟨rfl, rfl⟩
  rw [significant_append, significant_nil_of_all hlay, List.append_nil] at hf
  rw [List.append_assoc]
  exact .statement hf htrim (hu.of_append hlay) hquiet (h.gaps hgaps)

/-! ## From token to token -/

/-- Where a token stands: the number of tokens before it that are part of an expression, whether
the last of the tokens but line feeds goes on in the next line, and the brackets around it. -/
structure Spot where
  number : Nat
  joined : Bool
  scope : Scope

namespace Spot

/-- The spot behind a token. A line feed changes nothing. -/
def step (a : Spot) : TokenKind → Spot
  | .newline => a
  | k => ⟨a.number + bif k.isLayout then 0 else 1, a.scope.continues k, a.scope.step k⟩

/-- The spot behind some tokens. -/
def run (a : Spot) (ts : List Token) : Spot := ts.foldl (fun a t => a.step t.kind) a

/-- A line feed in front of the tokens may stand inside a statement: behind a token that goes on,
where line feeds are ignored, within a bracket that the statement opens, or in front of an `else`.
`d` is one more than the number of brackets around the statement. -/
def Crosses (d : Nat) (a : Spot) (ts : List Token) : Prop :=
  a.joined = true ∨ a.scope.isFree = true ∨ d ≤ a.scope.opened.length ∨ (1 < d ∧ BeforeElse ts)

/-- Each line feed among the tokens may stand there. -/
def Flows (d : Nat) : Spot → List Token → Prop
  | _, [] => True
  | a, t :: ts => (t.kind = .newline → a.Crosses d ts) ∧ Flows d (a.step t.kind) ts

variable {d : Nat} {a : Spot} {c : Scope} {ts us : List Token}

@[simp] theorem run_nil (a : Spot) : a.run [] = a := rfl

@[simp] theorem run_cons (a : Spot) (t : Token) (ts : List Token) :
    a.run (t :: ts) = (a.step t.kind).run ts := rfl

theorem run_append (a : Spot) (ts us : List Token) : a.run (ts ++ us) = (a.run ts).run us :=
  List.foldl_append

theorem step_of_ne (a : Spot) {k : TokenKind} (hk : k ≠ .newline) : a.step k =
    ⟨a.number + bif k.isLayout then 0 else 1, a.scope.continues k, a.scope.step k⟩ := by
  cases k <;> first | rfl | exact absurd rfl hk

theorem number_step (a : Spot) (t : Token) :
    (a.step t.kind).number = a.number + (significant [t]).length := by
  unfold step significant
  split
  · rename_i hk
    simp [hk, TokenKind.isLayout]
  · cases hl : t.kind.isLayout <;> simp [hl]

theorem scope_step (a : Spot) (k : TokenKind) : (a.step k).scope = a.scope.step k := by
  cases k <;> rfl

/-- Tokens are numbered as they come. -/
theorem number_run (a : Spot) (ts : List Token) :
    (a.run ts).number = a.number + (significant ts).length := by
  induction ts generalizing a with
  | nil => rfl
  | cons t ts ih =>
      rw [run_cons, ih, number_step, ← List.singleton_append (l := ts), significant_append,
        List.length_append, Nat.add_assoc]

theorem scope_run (a : Spot) (ts : List Token) :
    (a.run ts).scope = a.scope.run (ts.map (·.kind)) := by
  induction ts generalizing a with
  | nil => rfl
  | cons t ts ih => rw [run_cons, ih, scope_step, List.map_cons, Scope.run_cons]

/-- Behind line feeds one stands where one stood. -/
theorem run_lines (a : Spot) (h : ∀ t ∈ ts, t.kind = .newline) : a.run ts = a := by
  induction ts with
  | nil => rfl
  | cons t ts ih =>
      rw [run_cons, h t (List.mem_cons_self ..)]
      exact ih fun u hu => h u (List.mem_cons_of_mem _ hu)

/-- Where one stands joined, a token that goes on is the last, or only line feeds came. -/
theorem continued_of_joined (h : (a.run ts).joined = true) :
    Continued a.scope ts ∨ (a.joined = true ∧ ∀ t ∈ ts, t.kind = .newline) := by
  induction ts generalizing a with
  | nil => exact Or.inr ⟨h, by simp⟩
  | cons t ts ih =>
      rw [run_cons] at h
      rcases ih h with ⟨us, u, lines, rfl, hl, hc⟩ | ⟨hj, hl⟩
      · rw [scope_step] at hc
        exact Or.inl ⟨t :: us, u, lines, rfl, hl, hc⟩
      · by_cases hk : t.kind = .newline
        · rw [hk] at hj
          exact Or.inr ⟨hj, by simpa [hk] using hl⟩
        · rw [step_of_ne a hk] at hj
          exact Or.inl ⟨[], t, ts, rfl, hl, hj⟩

theorem Crosses.append (h : a.Crosses d ts) (us : List Token) : a.Crosses d (ts ++ us) := by
  rcases h with hj | hf | hd | ⟨hd, he⟩
  · exact Or.inl hj
  · exact Or.inr (Or.inl hf)
  · exact Or.inr (Or.inr (Or.inl hd))
  · exact Or.inr (Or.inr (Or.inr ⟨hd, he.append us⟩))

theorem Flows.append (h : a.Flows d ts) (h' : (a.run ts).Flows d us) : a.Flows d (ts ++ us) := by
  induction ts generalizing a with
  | nil => exact h'
  | cons t ts ih =>
      obtain ⟨hline, hrest⟩ := h
      exact ⟨fun hk => (hline hk).append us, ih hrest h'⟩

/-- Line feeds that may all stand in front of the tokens. -/
theorem Flows.lines {lines : List Token} (h : a.Flows d ts) (hl : ∀ l ∈ lines, l.kind = .newline)
    (hc : ∀ ls, (∀ l ∈ ls, l.kind = .newline) → a.Crosses d (ls ++ ts)) :
    a.Flows d (lines ++ ts) := by
  induction lines with
  | nil => exact h
  | cons l lines ih =>
      have hrest : ∀ m ∈ lines, m.kind = .newline := fun m hm => hl m (List.mem_cons_of_mem _ hm)
      have hk := hl l (List.mem_cons_self ..)
      refine ⟨fun _ => hc lines hrest, ?_⟩
      show (a.step l.kind).Flows d (lines ++ ts)
      rw [hk]
      exact ih hrest

/-- Line feeds that may all stand there. -/
theorem Flows.of_lines {lines : List Token} (hl : ∀ l ∈ lines, l.kind = .newline)
    (hc : ∀ ls, (∀ l ∈ ls, l.kind = .newline) → a.Crosses d ls) : a.Flows d lines := by
  have hnil : a.Flows d [] := trivial
  have hall := hnil.lines hl fun ls hls => (hc ls hls).append []
  rwa [List.append_nil] at hall

theorem Flows.crosses {before after : List Token} {l : Token}
    (h : a.Flows d (before ++ l :: after)) (hl : l.kind = .newline) :
    (a.run before).Crosses d after := by
  induction before generalizing a with
  | nil => exact h.1 hl
  | cons t before ih => exact ih h.2

/-- **Tokens whose line feeds all may stand there are unbroken**, in braces or outside all
brackets. -/
theorem Flows.unbroken {n : Nat} (hf : c.isFree = false)
    (h : Flows (c.opened.length + 1) ⟨n, false, c⟩ ts) : Unbroken c ts := by
  intro before l after hts hl ho
  rw [hts] at h
  have hscope : ((⟨n, false, c⟩ : Spot).run before).scope.opened = c.opened := by
    rw [scope_run]
    exact ho
  rcases h.crosses hl with hj | hfree | hd | ⟨hd, he⟩
  · rcases continued_of_joined hj with hc | ⟨hj, -⟩
    · exact Or.inl hc
    · cases hj
  · rw [Scope.isFree, Scope.layouts, hscope] at hfree
    rw [Scope.isFree, Scope.layouts, hfree] at hf
    cases hf
  · rw [hscope] at hd
    omega
  · refine Or.inr ⟨?_, he⟩
    intro hnil
    rw [hnil] at hd
    simp at hd

end Spot

end RSource
