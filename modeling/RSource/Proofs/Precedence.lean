import RSource.Proofs.Soundness
import RSource.Proofs.Traversal

/-!
# How operators hold their operands

* `Expression.spine`, `Term.spine` — the operators between operands at the left end of an
  expression, outside all brackets.
* `Edge`, `Expression.edge`, `Term.edge` — what stands open at its right end, outside all brackets,
  and would go on with an operator behind it.
* `Holds`, `Grouped` — what the powers of operators ask of the operands in a tree.
* `Ends` — where an expression ends, nothing open at its right end goes on.
* `ReadsOperations.opens` — behind a first operand: the step from operator to operator.
* `grouped_of_parse` — **every operator of an accepted source holds its operands as the powers
  ask**.
-/

namespace RSource

/-! ## The ends of an expression -/

mutual

/-- The operators between operands at the left end of an expression, outside all brackets, from
the outermost on. -/
def Expression.spine : Expression → List TokenKind
  | .term _ t => Term.spine t
  | .unary _ _ _ => []
  | .binary _ op l _ => op.kind :: Term.spine l
  | .assign _ l _ op _ => op.kind :: Term.spine l

/-- The operators between operands at the left end of an operand. -/
def Term.spine : Term → List TokenKind
  | .mk o _ => Operand.spine o

/-- The operators between operands at the left end, if the operand is an expression that stands
in no brackets. -/
def Operand.spine : Operand → List TokenKind
  | .nested e => Expression.spine e
  | _ => []

end

/-- What may stand open at the right end of an expression. -/
inductive Edge where
  /-- An operator with its right operand. -/
  | between (k : TokenKind)
  /-- An operator before its operand. -/
  | before (op : UnaryOp)
  /-- A function, a condition, a loop or a request for help. -/
  | form
  deriving DecidableEq, Repr

mutual

/-- What stands open at the right end of an expression, from the outermost on. -/
def Expression.edge : Expression → List Edge
  | .term _ t => Term.edge t
  | .unary _ op t => .before op :: Term.edge t
  | .binary _ op _ r => .between op.kind :: Term.edge r
  | .assign _ _ _ op v => .between op.kind :: Expression.edge v

/-- What stands open at the right end of an operand: nothing if brackets end it. -/
def Term.edge : Term → List Edge
  | .mk o [] => Operand.edge o
  | .mk _ (_ :: _) => []

/-- What stands open at the right end of an operand without calls and subscripts. -/
def Operand.edge : Operand → List Edge
  | .identifier _ | .constant _ | .block _ _ _ | .paren _ => []
  | .function _ _ _ | .ifThen _ _ _ | .ifElse _ _ _ _ | .forLoop _ _ _ _ | .whileLoop _ _ _
  | .repeatLoop _ _ | .help _ _ => [.form]
  | .nested e => Expression.edge e

end

/-! ## What the powers ask -/

/-- All operators have at least the left power `q`. -/
def AtLeast (q : Nat) (ks : List TokenKind) : Prop :=
  ∀ k ∈ ks, ∃ p, Power.ofKind? k = some p ∧ q ≤ p.left

/-- Whether what stands open leaves an operator of the left power `l` to the whole: it holds its
own operand more tightly. A form leaves none. -/
def Edge.Leaves (l : Nat) : Edge → Prop
  | between k => ∃ p, Power.ofKind? k = some p ∧ l < p.right
  | before op => l < op.power
  | form => False

/-- Whether the operator takes a component. -/
def TokenKind.isComponent (k : TokenKind) : Prop := k = .dollar ∨ k = .atSign

/-- What a component is taken of: a name, a constant, a block or something in parentheses, or
another component, each with the calls and subscripts behind it. -/
def Term.HasComponents : Term → Prop
  | .mk (.identifier _) _ | .mk (.constant _) _ | .mk (.block _ _ _) _ | .mk (.paren _) _ => True
  | .mk (.nested (.binary _ op _ _)) _ => op.kind.isComponent
  | _ => False

/-- An operator holds its operands as its powers ask. `right` is the left end of its right
operand. -/
structure Holds (k : TokenKind) (left : Term) (right : List TokenKind) (p : Power) : Prop where
  power : Power.ofKind? k = some p
  right_holds : ¬ k.isComponent → AtLeast p.right right
  left_leaves : ∀ x ∈ left.edge, x.Leaves p.left
  component : k.isComponent → left.HasComponents

/-- The operator of an expression, if there is one, holds its operands as its powers ask. -/
def Grouped : Expression → Prop
  | .term _ _ => True
  | .unary _ op t => AtLeast op.power t.spine
  | .binary _ op l r => ∃ p, Holds op.kind l r.spine p
  | .assign _ l _ op v => ∃ p, Holds op.kind l v.spine p

@[simp] theorem Term.spine_ofExpression (e : Expression) :
    (Term.ofExpression e).spine = e.spine := by
  cases e <;> rfl

@[simp] theorem Term.edge_ofExpression (e : Expression) :
    (Term.ofExpression e).edge = e.edge := by
  cases e <;> rfl

/-! ## Powers -/

/-- The left powers of all operators between operands. -/
theorem Power.left_bounds {k : TokenKind} {p : Power} (h : ofKind? k = some p) :
    11 ≤ p.left ∧ p.left ≤ 130 := by
  cases k <;> cases h <;> decide

/-- Only components hold their right operand more tightly than a component its left. -/
theorem Power.isComponent_of_right {k : TokenKind} {p : Power} (h : ofKind? k = some p)
    (hr : 130 < p.right) : k.isComponent := by
  cases k <;> cases h <;> first | exact Or.inl rfl | exact Or.inr rfl | exact absurd hr (by decide)

theorem Power.of_isComponent {k : TokenKind} (h : k.isComponent) :
    ofKind? k = some ⟨130, 131⟩ := by
  rcases h with rfl | rfl <;> rfl

theorem UnaryOp.power_le (op : UnaryOp) : op.power ≤ 111 := by cases op <;> decide

namespace Grammar

/-! ## Where an expression ends -/

/-- The next token goes on neither with brackets, nor with an operator of the left power `m` or
more, nor with one that what stands open would take. -/
structure Ends (m : Nat) (edge : List Edge) (s : Tape) : Prop where
  front : ∃ t, s.front = .ok t ∧ Brackets.ofKind? t.kind = none ∧
    ∀ p, Power.ofKind? t.kind = some p → p.left < m ∧ ∀ x ∈ edge, x.Leaves p.left

/-- Below the powers of all operators none goes on. -/
theorem Ends.of_le {m n : Nat} {edge edge' : List Edge} {s : Tape} (h : Ends m edge s)
    (hm : m ≤ 11) : Ends n edge' s := by
  obtain ⟨t, ht, hb, hp⟩ := h.front
  refine ⟨t, ht, hb, fun p hpow => ?_⟩
  have hlt := (hp p hpow).1
  have hle := (Power.left_bounds hpow).1
  omega

/-- What is asked of the relation of an expression. -/
structure Tied (E : ExprReads) : Prop where
  grouped : Throughout (fun _ => True) Grouped E
  spine : ∀ {m : Nat} {s s' : Tape} {e : Expression}, E m s e s' → AtLeast m e.spine
  ends : ∀ {m : Nat} {s s' : Tape} {e : Expression}, E m s e s' → Ends m e.edge s'

variable {E : ExprReads} {s s' : Tape}

section Ends

variable {close : TokenKind} (hE : Tied E)

include hE

theorem ReadsStatements.grouped {es : List Expression} (h : ReadsStatements E close s es s') :
    ∀ x ∈ statementsAll es, Grouped x :=
  h.throughout hE.grouped trivial

theorem ReadsBehind.spine {m : Nat} {e : Expression} (h : ReadsBehind E m s e s') :
    AtLeast m e.spine := by
  cases h with
  | mk _ he => exact hE.spine he

theorem ReadsBehind.ends {m : Nat} {e : Expression} (h : ReadsBehind E m s e s') :
    Ends m e.edge s' := by
  cases h with
  | mk _ he => exact hE.ends he

/-- An operand that is read has no operator outside brackets at its left end. Either a component
may be taken of it, or it is a form, which ends where no operator goes on. -/
theorem ReadsOperand.shape {o : Operand} (h : ReadsOperand E s o s') :
    o.spine = [] ∧
      (o.edge = [] ∧ (∀ gs, (Term.mk o gs).HasComponents) ∨ o.edge = [.form] ∧ Ends 0 [] s') := by
  cases h with
  | constant | identifier | paren | block => exact ⟨rfl, Or.inl ⟨rfl, fun _ => trivial⟩⟩
  | function _ _ _ _ _ _ _ he | ifThen _ _ _ he | ifElse _ _ _ _ _ _ _ _ he
  | forLoop _ _ _ _ _ _ _ _ _ _ he | whileLoop _ _ _ he | repeatLoop _ _ he =>
      exact ⟨rfl, Or.inr ⟨rfl, (he.ends hE).of_le (by decide)⟩⟩

omit hE in
/-- Calls and subscripts end where no brackets go on. -/
theorem ReadsGroups.ends {gs : List Group} (h : ReadsGroups E s gs s') :
    ∃ t, s'.front = .ok t ∧ Brackets.ofKind? t.kind = none := by
  induction h with
  | stop ht hk => exact ⟨_, ht, hk⟩
  | more _ _ ih => exact ih

omit hE in
theorem ReadsGroups.of_front {gs : List Group} {t : Token} (h : ReadsGroups E s gs s')
    (ht : s.front = .ok t) :
    Brackets.ofKind? t.kind = none ∧ gs = [] ∧ s' = s ∨
      (Brackets.ofKind? t.kind).isSome = true ∧ ∃ g gs', gs = g :: gs' := by
  cases h with
  | stop hu hk =>
      rw [ht] at hu
      cases hu
      exact Or.inl ⟨hk, rfl, rfl⟩
  | more hg =>
      cases hg with
      | mk hu hk =>
          rw [ht] at hu
          cases hu
          exact Or.inr ⟨by rw [hk]; rfl, _, _, rfl⟩

end Ends

/-! ## From operator to operator -/

/-- What has been read so far, from its start to the tape `s`, may become the left operand of
whatever goes on. -/
structure Open (m : Nat) (lhs : Expression) (s : Tape) : Prop where
  grouped : ∀ x ∈ lhs.all, Grouped x
  spine : AtLeast m lhs.spine
  component : (∀ x ∈ lhs.edge, x.Leaves 130) → (Term.ofExpression lhs).HasComponents
  brackets : ∀ t, s.front = .ok t → (Brackets.ofKind? t.kind).isSome = true →
    (Term.mk (.nested lhs) []).HasComponents
  leaves : ∀ t p, s.front = .ok t → Power.ofKind? t.kind = some p → ∀ x ∈ lhs.edge, x.Leaves p.left

/-- Where an expression ends no brackets go on, and what stands open leaves what goes on. -/
theorem Open.of_ends {m n : Nat} {lhs : Expression} (hg : ∀ x ∈ lhs.all, Grouped x)
    (hs : AtLeast m lhs.spine)
    (hc : (∀ x ∈ lhs.edge, x.Leaves 130) → (Term.ofExpression lhs).HasComponents)
    (he : Ends n lhs.edge s) : Open m lhs s := by
  obtain ⟨t, ht, hb, hp⟩ := he.front
  constructor
  case grouped => exact hg
  case spine => exact hs
  case component => exact hc
  case brackets =>
    intro u hu hsome
    rw [ht] at hu
    cases hu
    rw [hb] at hsome
    cases hsome
  case leaves =>
    intro u p hu hpow
    rw [ht] at hu
    cases hu
    exact (hp p hpow).2

section Open

variable (hE : Tied E)

include hE

theorem ReadsTerm.opens {m : Nat} {loc : Location} {x : Term} (h : ReadsTerm E s x s') :
    Open m (.term loc x) s' := by
  cases h with
  | @mk s₁ _ o gs ho hg =>
      obtain ⟨hspine, hshape⟩ := ho.shape hE
      obtain ⟨t, ht, hb⟩ := hg.ends
      have hgrouped : ∀ x ∈ (Expression.term loc (.mk o gs)).all, Grouped x := by
        intro x hx
        rcases List.mem_cons.mp hx with rfl | hx
        · trivial
        · rcases List.mem_append.mp hx with hx | hx
          · exact ho.throughout hE.grouped trivial x hx
          · exact hg.throughout hE.grouped trivial x hx
      have hle : AtLeast m (Expression.term loc (.mk o gs)).spine := by
        intro k hk
        rw [Expression.spine, Term.spine, hspine] at hk
        cases hk
      have hbrackets : ∀ u, s'.front = .ok u → (Brackets.ofKind? u.kind).isSome = true →
          (Term.mk (.nested (.term loc (.mk o gs))) []).HasComponents := by
        intro u hu hsome
        rw [ht] at hu
        cases hu
        rw [hb] at hsome
        cases hsome
      rcases hshape with ⟨hedge, hcomp⟩ | ⟨hedge, hends⟩
      · have hnil : (Expression.term loc (.mk o gs)).edge = [] := by
          cases gs with
          | nil => exact hedge
          | cons g gs => rfl
        refine ⟨hgrouped, hle, fun _ => hcomp gs, hbrackets, fun u p _ _ x hx => ?_⟩
        rw [hnil] at hx
        cases hx
      · -- A form takes all brackets and operators behind it.
        obtain ⟨u, hu, hnone, hpow⟩ := hends.front
        rcases hg.of_front hu with ⟨_, rfl, rfl⟩ | ⟨hsome, _⟩
        · refine .of_ends hgrouped hle (fun hl => ?_) (hends.of_le (n := 0) (by decide))
          have hform : Edge.form ∈ (Expression.term loc (.mk o [])).edge := by
            rw [Expression.edge, Term.edge, hedge]
            exact List.mem_singleton_self _
          exact (hl _ hform).elim
        · rw [hnone] at hsome
          cases hsome

theorem ReadsLeading.opens {m : Nat} {t : Token} {e : Expression}
    (h : ReadsLeading E t s e s') : Open m e s' := by
  cases h with
  | @unary _ op e hop he =>
      apply Open.of_ends (n := op.power)
      · intro x hx
        rcases List.mem_cons.mp hx with rfl | hx
        · rw [Grouped, Term.spine_ofExpression]
          exact he.spine hE
        · exact he.throughout hE.grouped trivial x (Term.all_ofExpression hx)
      · intro k hk
        cases hk
      · intro hl
        have hlt : 130 < op.power := hl (.before op) (List.mem_cons_self ..)
        have hle := op.power_le
        omega
      · obtain ⟨u, hu, hb, hp⟩ := (he.ends hE).front
        refine ⟨u, hu, hb, fun p hpow => ⟨(hp p hpow).1, fun x hx => ?_⟩⟩
        rw [Expression.edge, Term.edge_ofExpression] at hx
        rcases List.mem_cons.mp hx with rfl | hx
        · exact (hp p hpow).1
        · exact (hp p hpow).2 x hx
  | help hk he =>
      apply Open.of_ends (n := 0)
      · intro x hx
        rcases List.mem_cons.mp hx with rfl | hx
        · trivial
        · rw [Term.all, Operand.all, groupsAll, List.append_nil] at hx
          exact he.throughout hE.grouped trivial x hx
      · intro k hk
        cases hk
      · intro hl
        exact (hl .form (List.mem_singleton_self _)).elim
      · exact (he.ends hE).of_le (by decide)
  | term _ _ hx => exact hx.opens hE

/-- The right operand of an operator: its left end, and what stands open where it ends. -/
theorem ReadsRight.opens {op : TokenKind} {power : Power} {e : Expression}
    (h : ReadsRight E op power s e s') (hp : Power.ofKind? op = some power) :
    (∀ x ∈ e.all, Grouped x) ∧ (¬ op.isComponent → AtLeast power.right e.spine) ∧
      ∀ t, s'.front = .ok t → ((Brackets.ofKind? t.kind).isSome = true → op.isComponent) ∧
        ∀ p, Power.ofKind? t.kind = some p →
          p.left < power.right ∧ ∀ x ∈ e.edge, x.Leaves p.left := by
  cases h with
  | @bare _ t o hop ht ho =>
      obtain ⟨hspine, hshape⟩ := ho.shape hE
      refine ⟨?_, fun hn => absurd hop hn, fun u hu => ⟨fun _ => hop, ?_⟩⟩
      · intro x hx
        rcases List.mem_cons.mp hx with rfl | hx
        · trivial
        · rw [Term.all, groupsAll, List.append_nil] at hx
          exact ho.throughout hE.grouped trivial x hx
      · intro p hpow
        rw [Power.of_isComponent hop] at hp
        cases hp
        have hbound := (Power.left_bounds hpow).2
        have hlt : p.left < 131 := by omega
        refine ⟨hlt, ?_⟩
        intro x hx
        rcases hshape with ⟨hedge, _⟩ | ⟨_, hends⟩
        · rw [Expression.edge, Term.edge, hedge] at hx
          cases hx
        · obtain ⟨v, hv, _, hnone⟩ := hends.front
          rw [hu] at hv
          cases hv
          exact absurd (hnone p hpow).1 (Nat.not_lt_zero _)
  | full hop he =>
      obtain ⟨u, hu, hb, hpow⟩ := (hE.ends he).front
      refine ⟨hE.grouped.holds he trivial, fun _ => hE.spine he, ?_⟩
      intro t ht
      rw [ht] at hu
      cases hu
      refine ⟨?_, hpow⟩
      intro hsome
      rw [hb] at hsome
      cases hsome

omit hE in
/-- What is read so far holds as the left operand of the operator that goes on. -/
theorem Open.holds {m : Nat} {lhs : Expression} {t : Token} {p : Power} {right : List TokenKind}
    (h : Open m lhs s) (ht : s.front = .ok t) (hp : Power.ofKind? t.kind = some p)
    (hr : ¬ t.kind.isComponent → AtLeast p.right right) :
    Holds t.kind (Term.ofExpression lhs) right p := by
  have hl := h.leaves t p ht hp
  constructor
  case power => exact hp
  case right_holds => exact hr
  case left_leaves => rwa [Term.edge_ofExpression]
  case component =>
    intro hc
    apply h.component
    rw [Power.of_isComponent hc] at hp
    cases hp
    exact hl

/-- An operator with both its operands. -/
theorem Open.joined {m : Nat} {loc : Location} {lhs rhs e : Expression} {t : Token} {p : Power}
    {s₁ : Tape} (h : Open m lhs s) (ht : s.front = .ok t) (hp : Power.ofKind? t.kind = some p)
    (hm : m ≤ p.left) (hr : ReadsRight E t.kind p s₁ rhs s')
    (hj : joined? loc lhs t rhs = some e) : Open m e s' := by
  obtain ⟨hgrouped, hspine, hfront⟩ := hr.opens hE hp
  have hholds := h.holds ht hp hspine
  have hleft : AtLeast m (t.kind :: lhs.spine) := by
    intro k hk
    rcases List.mem_cons.mp hk with rfl | hk
    · exact ⟨p, hp, hm⟩
    · exact h.spine k hk
  have hleaves : ∀ u q, s'.front = .ok u → Power.ofKind? u.kind = some q →
      ∀ x ∈ Edge.between t.kind :: rhs.edge, x.Leaves q.left := by
    intro u q hu hq x hx
    obtain ⟨hlt, hrest⟩ := (hfront u hu).2 q hq
    rcases List.mem_cons.mp hx with rfl | hx
    · exact ⟨p, hp, hlt⟩
    · exact hrest x hx
  unfold joined? at hj
  split at hj
  · rename_i a ha
    cases hj
    obtain ⟨hk, -⟩ := AssignOp.kind_ofKind? ha
    have hnc : ¬ t.kind.isComponent := by
      rintro (hc | hc) <;> rw [hc] at ha <;> cases ha
    constructor
    case grouped =>
      intro x hx
      rcases List.mem_cons.mp hx with rfl | hx
      · refine ⟨p, ?_⟩
        rw [hk]
        exact hholds
      · rcases List.mem_append.mp hx with hx | hx
        · exact h.grouped x (Term.all_ofExpression hx)
        · exact hgrouped x hx
    case spine => rwa [Expression.spine, Term.spine_ofExpression, hk]
    case component =>
      intro hl
      obtain ⟨q, hq, hlt⟩ := hl (.between a.kind) (List.mem_cons_self ..)
      rw [hk] at hq
      exact absurd (Power.isComponent_of_right hq hlt) hnc
    case brackets =>
      intro u hu hsome
      exact absurd ((hfront u hu).1 hsome) hnc
    case leaves => rwa [Expression.edge, hk]
  · split at hj
    · rename_i b hb
      cases hj
      obtain ⟨hk, -⟩ := BinaryOp.kind_ofToken? hb
      constructor
      case grouped =>
        intro x hx
        rcases List.mem_cons.mp hx with rfl | hx
        · refine ⟨p, ?_⟩
          rw [hk, Term.spine_ofExpression]
          exact hholds
        · rcases List.mem_append.mp hx with hx | hx
          · exact h.grouped x (Term.all_ofExpression hx)
          · exact hgrouped x (Term.all_ofExpression hx)
      case spine => rwa [Expression.spine, Term.spine_ofExpression, hk]
      case component =>
        intro hl
        obtain ⟨q, hq, hlt⟩ := hl (.between b.kind) (List.mem_cons_self ..)
        exact Power.isComponent_of_right hq hlt
      case brackets =>
        intro u hu hsome
        have hc := (hfront u hu).1 hsome
        rw [← hk] at hc
        exact hc
      case leaves => rwa [Expression.edge, Term.edge_ofExpression, hk]
    · cases hj

/-- A component with the calls and subscripts behind it. -/
theorem Open.called {m : Nat} {loc : Location} {lhs : Expression} {t : Token} {gs : List Group}
    (h : Open m lhs s) (ht : s.front = .ok t) (hb : (Brackets.ofKind? t.kind).isSome = true)
    (hg : ReadsGroups E s gs s') : Open m (.term loc (.mk (.nested lhs) gs)) s' := by
  have hcomp := h.brackets t ht hb
  rcases hg.of_front ht with ⟨hnone, _⟩ | ⟨_, g, gs', rfl⟩
  · rw [hnone] at hb
    cases hb
  · obtain ⟨u, hu, hnone⟩ := hg.ends
    constructor
    case grouped =>
      intro x hx
      rcases List.mem_cons.mp hx with rfl | hx
      · trivial
      · rcases List.mem_append.mp hx with hx | hx
        · exact h.grouped x hx
        · exact hg.throughout hE.grouped trivial x hx
    case spine => exact h.spine
    case component =>
      intro _
      cases lhs with
      | binary loc op l r => exact hcomp
      | term | unary | assign => exact hcomp.elim
    case brackets =>
      intro v hv hsome
      rw [hu] at hv
      cases hv
      rw [hnone] at hsome
      cases hsome
    case leaves =>
      intro _ _ _ _ x hx
      cases hx

/-- Behind a first operand each operator that is taken leaves something that may be the left
operand of the next. -/
theorem ReadsOperations.opens {m : Nat} {loc : Location} {lhs e : Expression}
    (h : ReadsOperations E m loc lhs s e s') (hl : Open m lhs s) :
    Open m e s' ∧ Ends m e.edge s' := by
  induction h with
  | stop ht hb hp => exact ⟨hl, _, ht, hb, fun p hpow => ⟨hp p hpow, hl.leaves _ p ht hpow⟩⟩
  | groups ht hb hg _ ih => exact ih (hl.called hE ht hb hg)
  | operator ht _ hp hm _ hr hj _ ih => exact ih (hl.joined hE ht hp hm hr hj)

theorem ReadsLevel.opens {m : Nat} {e : Expression} (h : ReadsLevel E m s e s') :
    Open m e s' ∧ Ends m e.edge s' := by
  cases h with
  | mk ht hl ho => exact ho.opens hE (hl.opens hE)

end Open

theorem tied_readsExpression (levels : Nat) : Tied (ReadsExpression levels) := by
  induction levels with
  | zero =>
      exact ⟨⟨covers_readsExpression 0, fun _ _ _ _ => trivial, fun h => h.elim⟩, fun h => h.elim,
        fun h => h.elim⟩
  | succ levels ih =>
      exact ⟨⟨covers_readsExpression _, fun _ _ _ _ => trivial,
          fun h _ => (h.opens ih).1.grouped⟩,
        fun h => (h.opens ih).1.spine, fun h => (h.opens ih).2⟩

end Grammar

/-- **Every operator of an accepted source holds its operands as the powers ask**, in every
expression of the tree. -/
theorem grouped_of_parse {bytes : List UInt8} {p : Program} (h : parse bytes = .ok p) :
    ∀ e ∈ p.expressions, Grouped e := by
  obtain ⟨_, _, _, _, hs⟩ := Grammar.readsProgram_of_parse h
  exact hs.grouped (Grammar.tied_readsExpression maxNesting)

/-- A minus takes the whole power behind it. -/
theorem grouped_of_parse_of_minus :
    Grouped (.unary ⟨1, 1⟩ .minus
      (.mk (.nested (.binary ⟨1, 2⟩ .pow (.mk (.identifier ⟨⟨1, 2⟩, "a", false⟩) [])
        (.mk (.identifier ⟨⟨1, 4⟩, "b", false⟩) []))) [])) := by
  have h : parse "-a^b".toUTF8.data.toList = .ok ⟨[.unary ⟨1, 1⟩ .minus
      (.mk (.nested (.binary ⟨1, 2⟩ .pow (.mk (.identifier ⟨⟨1, 2⟩, "a", false⟩) [])
        (.mk (.identifier ⟨⟨1, 4⟩, "b", false⟩) []))) [])]⟩ := by rfl
  exact grouped_of_parse h _ (List.mem_cons_self ..)

end RSource
