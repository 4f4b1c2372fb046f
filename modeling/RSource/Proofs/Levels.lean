import RSource.Proofs.Composing

/-!
# More levels of nesting

A parse that may nest its expressions deeper does what it did before, up to the point where it
refused to go on.

* `Parse.Deepens` — one parse asks for what another one asks, until that one nests too deeply.
* `Parse.Deepens.bind`, `Parse.Deepens.run` — so for sequences, and **what it means for a run**.
* `composes_deepens` — so for all parses of the grammar, if it is so for those of expressions.
* `deepens_expression` — **an expression with more levels of nesting deepens the same expression
  with fewer**.
-/

namespace RSource

namespace Parse

variable {α β : Type}

/-- The second parse makes the requests of the first, unless that one nests too deeply: there the
second one may go on with a look at the next token. -/
inductive Deepens : Parse α → Parse α → Prop where
  | done (a : α) : Deepens (done a) (done a)
  | reject (expected : List Continuation) : Deepens (reject expected) (reject expected)
  | tooDeep : Deepens tooDeep tooDeep
  | further (k : Token → Parse α) : Deepens tooDeep (ahead 0 k)
  | ahead (n : Nat) {k k' : Token → Parse α} (h : ∀ t, Deepens (k t) (k' t)) :
      Deepens (ahead n k) (ahead n k')
  | take {k k' : Token → Parse α} (h : ∀ t, Deepens (k t) (k' t)) : Deepens (take k) (take k')
  | skipLines {k k' : Unit → Parse α} (h : ∀ u, Deepens (k u) (k' u)) :
      Deepens (skipLines k) (skipLines k')
  | beyondLines {k k' : TokenKind → Parse α} (h : ∀ kind, Deepens (k kind) (k' kind)) :
      Deepens (beyondLines k) (beyondLines k')
  | enter (l : Layout) {k k' : Unit → Parse α} (h : ∀ u, Deepens (k u) (k' u)) :
      Deepens (enter l k) (enter l k')
  | leave {k k' : Unit → Parse α} (h : ∀ u, Deepens (k u) (k' u)) : Deepens (leave k) (leave k')
  | inBrackets {k k' : Bool → Parse α} (h : ∀ b, Deepens (k b) (k' b)) :
      Deepens (inBrackets k) (inBrackets k')

namespace Deepens

theorem refl (p : Parse α) : Deepens p p := by
  induction p with
  | done a => exact .done a
  | reject expected => exact .reject expected
  | tooDeep => exact .tooDeep
  | ahead n k ih => exact .ahead n ih
  | take k ih => exact .take ih
  | skipLines k ih => exact .skipLines ih
  | beyondLines k ih => exact .beyondLines ih
  | enter l k ih => exact .enter l ih
  | leave k ih => exact .leave ih
  | inBrackets k ih => exact .inBrackets ih

/-- A sequence deepens if both parts do. -/
theorem bind {p q : Parse α} {f g : α → Parse β} (h : Deepens p q)
    (hf : ∀ a, Deepens (f a) (g a)) : Deepens (p.bind f) (q.bind g) := by
  induction h with
  | done a => exact hf a
  | reject expected => exact .reject expected
  | tooDeep => exact .tooDeep
  | further k => exact .further _
  | ahead n _ ih => exact .ahead n ih
  | take _ ih => exact .take ih
  | skipLines _ ih => exact .skipLines ih
  | beyondLines _ ih => exact .beyondLines ih
  | enter l _ ih => exact .enter l ih
  | leave _ ih => exact .leave ih
  | inBrackets _ ih => exact .inBrackets ih

/-- A loop deepens if all turns do. -/
theorem loop {σ ρ : Type} {turn turn' : σ → Parse (Turn σ ρ)}
    (h : ∀ x, Deepens (turn x) (turn' x)) (n : Nat) (x : σ) :
    Deepens (Parse.loop turn n x) (Parse.loop turn' n x) := by
  induction n generalizing x with
  | zero => exact .refl _
  | succ n ih =>
    refine (h x).bind fun r => ?_
    cases r with
    | again y => exact ih y
    | exit r => exact .refl _

/-- **The deeper parse comes to the same, feed included**, unless the other one nests too
deeply. -/
theorem run {p q : Parse α} (h : Deepens p q) (s : Feed) :
    (∃ loc, p.run s = .error (.tooDeep loc)) ∨ q.run s = p.run s := by
  induction h generalizing s with
  | done a => exact Or.inr rfl
  | reject expected => exact Or.inr rfl
  | tooDeep => exact Or.inr rfl
  | further k =>
      simp only [Parse.run, Feed.front]
      cases s.ahead 0 with
      | error e => exact Or.inr rfl
      | ok t => exact Or.inl ⟨t.loc, rfl⟩
  | ahead n _ ih =>
      simp only [Parse.run]
      cases s.ahead n with
      | error e => exact Or.inr rfl
      | ok t => exact ih t s
  | take _ ih =>
      simp only [Parse.run]
      cases s.take with
      | error e => exact Or.inr rfl
      | ok x => exact ih x.1 x.2
  | skipLines _ ih =>
      simp only [Parse.run]
      cases s.skipLines with
      | error e => exact Or.inr rfl
      | ok s' => exact ih () s'
  | beyondLines _ ih =>
      simp only [Parse.run]
      cases s.beyondLines with
      | error e => exact Or.inr rfl
      | ok kind => exact ih kind s
  | enter l _ ih => exact ih () (s.enter l)
  | leave _ ih => exact ih () s.leave
  | inBrackets _ ih => exact ih s.inBrackets s

end Deepens

end Parse

namespace Grammar

open Parse

/-- If the parses of expressions deepen, all parses of the grammar do. -/
theorem composes_deepens {expr expr' : ExprParse} (bound : Nat)
    (hE : ∀ m, Deepens (expr m) (expr' m)) :
    Composes bound fun p => Deepens (p expr) (p expr') where
  request _ := .refl _
  call := hE
  bind hp hf := hp.bind hf
  loop _ hturn x := .loop hturn bound x

/-- **An expression with more levels of nesting deepens the same expression with fewer.** -/
theorem deepens_expression (bound m : Nat) {levels levels' : Nat} (h : levels ≤ levels') :
    Deepens (expression bound levels m) (expression bound levels' m) := by
  induction levels generalizing levels' m with
  | zero =>
      cases levels' with
      | zero => exact .tooDeep
      | succ levels' => exact .further _
  | succ levels ih =>
      obtain ⟨k, rfl⟩ := Nat.exists_eq_add_of_le' h
      have hinner (m : Nat) :
          Deepens (expression bound levels m) (expression bound (k + levels) m) :=
        ih m (Nat.le_add_left levels k)
      exact (composes_deepens bound hinner).level m

end Grammar

end RSource
