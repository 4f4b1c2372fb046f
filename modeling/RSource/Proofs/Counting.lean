import RSource.Proofs.Nesting

/-!
# Counting the expressions around

The parses of the grammar are given the parse of the expressions in them, which knows how many may
still be nested. The same comes of a counter that is raised before an expression and lowered behind
it.

* `Counts` — what comes of a parse that calls for expressions, and of a counter of those around it.
* `Counts.run` — **the counter is found again as it was**, and the outcome is that of the parse
  which is given how many expressions are around it.
* `Counted` — such a parse comes to what it comes to with a counter.
* `composes_counted_of_calls` — so do all parses of the grammar, if those of expressions do.
* `counted_expression` — **so does an expression**, by induction on the expressions that may still
  be nested.
* `composes_counted` — **so do all parses of the grammar**.
-/

namespace RSource

open Parse Grammar

/-- What comes of a parse that calls for expressions, where so many expressions are around it, and
the counter of these behind it. A request leaves the counter alone. A call is refused at the limit;
else the counter is raised before the expression and lowered behind it. -/
inductive Counts (bound : Nat) :
    {α : Type} → (ExprParse → Parse α) → Nat → Feed → Except Error (α × Feed) → Nat → Prop where
  | requests {α : Type} (p : Parse α) (depth : Nat) (s : Feed) :
      Counts bound (fun _ => p) depth s (p.run s) depth
  | refused {depth : Nat} (h : maxNesting ≤ depth) (m : Nat) (s : Feed) :
      Counts bound (fun expr => expr m) depth s (tooDeep.run s) depth
  | call {depth depth' m : Nat} {s : Feed} {o : Except Error (Expression × Feed)}
      (h : depth < maxNesting)
      (hl : Counts bound (fun expr => level expr bound m) (depth + 1) s o depth') :
      Counts bound (fun expr => expr m) depth s o (depth' - 1)
  | fail {α β : Type} {p : ExprParse → Parse β} {f : β → ExprParse → Parse α}
      {depth depth' : Nat} {s : Feed} {e : Error}
      (hp : Counts bound p depth s (.error e) depth') :
      Counts bound (fun expr => (p expr).bind fun b => f b expr) depth s (.error e) depth'
  | bind {α β : Type} {p : ExprParse → Parse β} {f : β → ExprParse → Parse α}
      {depth depth₁ depth' : Nat} {s s₁ : Feed} {b : β} {o : Except Error (α × Feed)}
      (hp : Counts bound p depth s (.ok (b, s₁)) depth₁)
      (hf : Counts bound (f b) depth₁ s₁ o depth') :
      Counts bound (fun expr => (p expr).bind fun b => f b expr) depth s o depth'

theorem expressionAt_of_lt {bound depth : Nat} (h : depth < maxNesting) (m : Nat) :
    expressionAt bound depth m = level (expressionAt bound (depth + 1)) bound m := by
  obtain ⟨n, hn⟩ := Nat.exists_eq_add_of_lt h
  have hlevels : maxNesting - depth = maxNesting - (depth + 1) + 1 := by omega
  rw [expressionAt, hlevels]
  rfl

theorem expressionAt_of_le {bound depth : Nat} (h : maxNesting ≤ depth) (m : Nat) :
    expressionAt bound depth m = tooDeep := by
  rw [expressionAt, Nat.sub_eq_zero_of_le h]
  rfl

/-- **The counter is found again as it was**, and the outcome is that of the parse which is given
how many expressions are around it. -/
theorem Counts.run {bound depth depth' : Nat} {α : Type} {p : ExprParse → Parse α} {s : Feed}
    {o : Except Error (α × Feed)} (h : Counts bound p depth s o depth') :
    o = (p (expressionAt bound depth)).run s ∧ depth' = depth := by
  induction h with
  | requests p depth s => exact ⟨rfl, rfl⟩
  | refused h m s => exact ⟨congrArg (·.run s) (expressionAt_of_le h m).symm, rfl⟩
  | @call depth _ m s _ h _ ih =>
      obtain ⟨rfl, rfl⟩ := ih
      exact ⟨congrArg (Parse.run · s) (expressionAt_of_lt h m).symm, rfl⟩
  | fail _ ih =>
      obtain ⟨hp, rfl⟩ := ih
      exact ⟨by rw [run_bind, ← hp], rfl⟩
  | bind _ _ ihp ihf =>
      obtain ⟨hp, rfl⟩ := ihp
      obtain ⟨rfl, rfl⟩ := ihf
      exact ⟨by rw [run_bind, ← hp], rfl⟩

/-- With so many expressions around it the parse comes to what it comes to with a counter. -/
def Counted (bound depth : Nat) {α : Type} (p : ExprParse → Parse α) : Prop :=
  ∀ s, Counts bound p depth s ((p (expressionAt bound depth)).run s) depth

section Sequences

variable {α β : Type} {bound depth : Nat}

theorem counted_requests (p : Parse α) : Counted bound depth fun _ => p := .requests p depth

theorem Counted.bind {p : ExprParse → Parse β} {f : β → ExprParse → Parse α}
    (hp : Counted bound depth p) (hf : ∀ b, Counted bound depth (f b)) :
    Counted bound depth fun expr => (p expr).bind fun b => f b expr := by
  intro s
  have hs := hp s
  rw [run_bind]
  cases hrun : (p (expressionAt bound depth)).run s with
  | error e =>
      rw [hrun] at hs
      exact .fail hs
  | ok r =>
      rw [hrun] at hs
      exact .bind hs (hf r.1 r.2)

/-- Turns come to what they come to with a counter, and so do any number of them. -/
theorem counted_loop {σ ρ : Type} {turn : σ → ExprParse → Parse (Turn σ ρ)}
    (h : ∀ x, Counted bound depth (turn x)) (n : Nat) (x : σ) :
    Counted bound depth fun expr => loop (fun y => turn y expr) n x := by
  induction n generalizing x with
  | zero => exact counted_requests outOfBound
  | succ n ih =>
    refine (h x).bind fun r => ?_
    cases r with
    | again y => exact ih y
    | exit r => exact counted_requests (done r)

end Sequences

namespace Grammar

/-- If the parses of expressions come to what they come to with a counter, all parses of the grammar
do. -/
theorem composes_counted_of_calls {bound depth : Nat}
    (hE : ∀ m, Counted bound depth fun expr => expr m) : Composes bound (Counted bound depth) where
  request _ := counted_requests _
  call := hE
  bind hp hf := hp.bind hf
  loop _ hturn x := counted_loop hturn bound x

/-- **An expression comes to what it comes to with a counter.** -/
theorem counted_expression (bound depth m : Nat) : Counted bound depth fun expr => expr m := by
  -- The levels that are left decrease from an expression to those in it.
  induction hleft : maxNesting - depth generalizing depth m with
  | zero =>
      intro s
      have hle : maxNesting ≤ depth := Nat.le_of_sub_eq_zero hleft
      change Counts bound (fun expr => expr m) depth s ((expressionAt bound depth m).run s) depth
      rw [expressionAt_of_le hle]
      exact .refused hle m s
  | succ left ih =>
      intro s
      have hlt : depth < maxNesting := by omega
      have hinner (m : Nat) : Counted bound (depth + 1) fun expr => expr m :=
        ih (depth + 1) m (by omega)
      have hlevel : Counted bound (depth + 1) fun expr => level expr bound m :=
        (composes_counted_of_calls hinner).level m
      change Counts bound (fun expr => expr m) depth s ((expressionAt bound depth m).run s) depth
      rw [expressionAt_of_lt hlt]
      exact .call hlt (hlevel s)

/-- **So do all parses of the grammar.** -/
theorem composes_counted (bound depth : Nat) : Composes bound (Counted bound depth) :=
  composes_counted_of_calls (counted_expression bound depth)

end Grammar

end RSource
