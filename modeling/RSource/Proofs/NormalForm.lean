import RSource.Proofs.Building
import RSource.Proofs.Places

/-!
# The normal form of trees

A tree of an accepted source is in a normal form that the types of its parts do not ask for.

* `Term.IsNormal`, `Expression.IsNormal` — what the normal form asks of a term and of an expression.
* `Grammar.ListsFilled` — calls and subscripts are read where a bracket opens, parameters where the
  parentheses do not close, and then one at least; else the list is left out.
* `Node.IsFilled` — a node around calls, subscripts or parameters is around one at least.
* `Expression.filled` and the like — so in the node view, which has no node for a list left out.
* `normal_of_parse` — **the tree of an accepted source is in normal form**, in every expression.
-/

namespace RSource

/-- What may be taken as a component: no expression with an operator outside parentheses, and no
request for help. -/
def Operand.IsPlain : Operand → Prop
  | .nested _ | .help _ _ => False
  | _ => True

theorem Operand.IsPlain.ne_nested {o : Operand} (h : o.IsPlain) (e : Expression) :
    o ≠ .nested e := by
  rintro rfl
  exact h

/-- The name of a slot that has one. -/
def Argument.name? : Argument → Option ArgName
  | .empty | .value _ => none
  | .name n | .named n _ => some n

/-- A constant that names an argument is a string or the null constant. -/
def ArgName.IsNormal : ArgName → Prop
  | .identifier _ => True
  | .constant c => c.kind = .string ∨ c.kind = .null

/-- A term in normal form. -/
structure Term.IsNormal (t : Term) : Prop where
  /-- An expression is nested for the sake of its operator. -/
  operator : ∀ e, t.operand = .nested e → ¬ e.IsTerm
  /-- Of nested expressions only a component has calls and subscripts behind it. -/
  component : ∀ e, t.operand = .nested e → t.groups ≠ [] →
    ∃ loc op l r, e = .binary loc op l r ∧ op.kind.isComponent
  /-- Calls and subscripts stand behind what components are taken of. -/
  callable : t.groups ≠ [] → t.HasComponents
  names : ∀ g ∈ t.groups, ∀ a ∈ g.slots, ∀ n, a.name? = some n → n.IsNormal

/-- What is taken as a component is plain and has no calls and subscripts of its own. -/
def Expression.HasPlainComponent (e : Expression) : Prop :=
  ∀ loc op l r, e = .binary loc op l r → op.kind.isComponent → r.operand.IsPlain ∧ r.groups = []

/-- An expression in normal form. -/
structure Expression.IsNormal (e : Expression) : Prop where
  terms : ∀ t ∈ e.terms, t.IsNormal
  right : e.HasPlainComponent

/-! ## Lists that are read -/

/-- Wherever a parse stands, calls and subscripts are left out where no bracket opens, and
parameters where the parentheses close. Elsewhere one at least is read, and at the first of them
stands the node around all. -/
structure Grammar.ListsFilled (expr : Grammar.ExprParse) (bound : Nat) : Prop where
  groups : ∀ s gs s', (Grammar.groups expr bound bound).run s = .ok (gs, s') →
    ∃ t, s.front = .ok t ∧
      ((Brackets.ofKind? t.kind = none ∧ gs = []) ∨
        ∃ kind g rest, Brackets.ofKind? t.kind = some kind ∧ gs = g :: rest ∧
          ∀ nodes, Node.groups gs nodes = [.mk .groups g.loc nodes])
  formals : ∀ s fs s', (Grammar.formals expr bound).run s = .ok (fs, s') →
    ∃ t, s.front = .ok t ∧
      ((t.kind = .rparen ∧ fs = []) ∨
        ∃ f rest, t.kind ≠ .rparen ∧ fs = f :: rest ∧
          ∀ nodes, Node.formals fs nodes = [.mk .formals f.name.loc nodes])

namespace Grammar

variable {E : ExprReads} {s s' : Tape}

theorem ReadsGroups.filled {gs : List Group} (h : ReadsGroups E s gs s') :
    ∃ t, s.front = .ok t ∧
      ((Brackets.ofKind? t.kind = none ∧ gs = []) ∨
        ∃ kind g rest, Brackets.ofKind? t.kind = some kind ∧ gs = g :: rest) := by
  cases h with
  | stop ht hk => exact ⟨_, ht, .inl ⟨hk, rfl⟩⟩
  | more hg _ =>
    cases hg with
    | mk ht hk => exact ⟨_, ht, .inr ⟨_, _, _, hk, rfl⟩⟩

theorem ReadsSomeFormals.exists_cons {fs : List Formal} (h : ReadsSomeFormals E s fs s') :
    ∃ f rest, fs = f :: rest := by
  cases h with
  | last => exact ⟨_, [], rfl⟩
  | more => exact ⟨_, _, rfl⟩

theorem ReadsFormals.filled {fs : List Formal} (h : ReadsFormals E s fs s') :
    ∃ t, s.front = .ok t ∧
      ((t.kind = .rparen ∧ fs = []) ∨ ∃ f rest, t.kind ≠ .rparen ∧ fs = f :: rest) := by
  cases h with
  | none ht hk => exact ⟨_, ht, .inl ⟨hk, rfl⟩⟩
  | some ht hk hs =>
    obtain ⟨f, rest, hfs⟩ := hs.exists_cons
    exact ⟨_, ht, .inr ⟨f, rest, hk, hfs⟩⟩

/-- **A list is left out or filled**, as the token says at which it would start. -/
theorem listsFilled (expr : ExprParse) (bound : Nat) : ListsFilled expr bound where
  groups s gs s' h := by
    have hreads : ReadsGroups (fun m s e s' => (expr m).play s = .ok (e, s')) s.tape gs s'.tape :=
      readsGroups_of_play (fun _ _ _ _ he => he) (Parse.play_of_run h)
    obtain ⟨t, ht, hfilled⟩ := hreads.filled
    refine ⟨t, s.front_tape.trans ht, hfilled.imp_right ?_⟩
    rintro ⟨kind, g, rest, hk, rfl⟩
    exact ⟨kind, g, rest, hk, rfl, fun _ => rfl⟩
  formals s fs s' h := by
    have hreads : ReadsFormals (fun m s e s' => (expr m).play s = .ok (e, s')) s.tape fs s'.tape :=
      readsFormals_of_play (fun _ _ _ _ he => he) (Parse.play_of_run h)
    obtain ⟨t, ht, hfilled⟩ := hreads.filled
    refine ⟨t, s.front_tape.trans ht, hfilled.imp_right ?_⟩
    rintro ⟨f, rest, hk, rfl⟩
    exact ⟨f, rest, hk, rfl, fun _ => rfl⟩

end Grammar

/-! ## Nodes around lists -/

/-- A node around calls and subscripts, or around parameters, is around one at least. -/
def Node.IsFilled (n : Node) : Prop := n.label = .groups ∨ n.label = .formals → n.children ≠ []

/-- All nodes from one on are filled. -/
def Node.Filled (n : Node) : Prop :=
  ∀ depth, ∀ v ∈ n.preorder (fun _ _ => false) depth, v.2.IsFilled

theorem Node.filledAll {ns : List Node} (h : ∀ n ∈ ns, n.Filled) (depth : Nat) :
    ∀ v ∈ preorderAll (fun _ _ => false) depth ns, v.2.IsFilled := by
  intro v hv
  induction ns with
  | nil => cases hv
  | cons n ns ih =>
      rcases List.mem_append.mp hv with hv | hv
      · exact h n List.mem_cons_self depth v hv
      · exact ih (fun m hm => h m (List.mem_cons_of_mem _ hm)) hv

theorem Node.Filled.mk {label : Label} {loc : Location} {cs : List Node}
    (h : (Node.mk label loc cs).IsFilled) (hcs : ∀ c ∈ cs, c.Filled) :
    (Node.mk label loc cs).Filled := by
  intro depth v hv
  rw [Node.preorder] at hv
  rcases List.mem_cons.mp hv with rfl | hv
  · exact h
  · exact Node.filledAll hcs (depth + 1) v hv

/-- A node of another label need not be around anything. -/
theorem Node.Filled.other {label : Label} {loc : Location} {cs : List Node}
    (hg : label ≠ .groups) (hf : label ≠ .formals) (hcs : ∀ c ∈ cs, c.Filled) :
    (Node.mk label loc cs).Filled := by
  apply Node.Filled.mk _ hcs
  rintro (h | h)
  · exact absurd h hg
  · exact absurd h hf

/-- A name or a constant is around nothing. -/
theorem Node.Filled.leaf {label : Label} {loc : Location} (hg : label ≠ .groups)
    (hf : label ≠ .formals) : (Node.mk label loc []).Filled :=
  .other hg hf fun _ h => by cases h

/-- A node around one other. -/
theorem Node.Filled.one {label : Label} {loc : Location} {n : Node} (hg : label ≠ .groups)
    (hf : label ≠ .formals) (h : n.Filled) : (Node.mk label loc [n]).Filled :=
  .other hg hf (List.forall_mem_singleton.mpr h)

theorem ArgName.filled (n : ArgName) : n.node.Filled := by
  cases n with
  | identifier i => exact .leaf nofun nofun
  | constant c => exact .leaf nofun nofun

mutual

theorem Expression.filled : ∀ e : Expression, e.node.Filled
  | .term _ t => .other nofun nofun (Term.filled t)
  | .unary _ _ t => .other nofun nofun (Term.filled t)
  | .binary _ _ l r =>
      .other nofun nofun (List.forall_mem_append.mpr ⟨Term.filled l, Term.filled r⟩)
  | .assign _ l _ _ v =>
      .other nofun nofun (List.forall_mem_append.mpr
        ⟨Term.filled l, List.forall_mem_singleton.mpr (.one nofun nofun (Expression.filled v))⟩)

theorem Term.filled : ∀ t : Term, ∀ n ∈ t.nodes, n.Filled
  | .mk o [] => List.forall_mem_singleton.mpr (Operand.filled o)
  | .mk o (g :: gs) => by
      intro n hn
      rcases List.mem_cons.mp hn with rfl | hn
      · exact Operand.filled o
      · obtain rfl := List.mem_singleton.mp hn
        apply Node.Filled.mk
        · intro _
          exact List.cons_ne_nil _ _
        · exact groupNodes_filled (g :: gs)

theorem Operand.filled : ∀ o : Operand, o.node.Filled
  | .identifier _ => .leaf nofun nofun
  | .constant _ => .leaf nofun nofun
  | .block _ es _ => .one nofun nofun (.other nofun nofun (expressionNodes_filled es))
  | .function _ fs e => by
      refine Node.Filled.other nofun nofun fun n hn => ?_
      rcases List.mem_append.mp hn with hn | hn
      · cases fs with
        | nil => cases hn
        | cons f fs =>
            obtain rfl := List.mem_singleton.mp hn
            apply Node.Filled.mk
            · intro _
              cases f <;> exact List.cons_ne_nil _ _
            · exact formalNodes_filled (f :: fs)
      · obtain rfl := List.mem_singleton.mp hn
        exact Expression.filled e
  | .ifThen _ c e =>
      .other nofun nofun (List.forall_mem_cons.mpr
        ⟨.one nofun nofun (Expression.filled c),
          List.forall_mem_singleton.mpr (Expression.filled e)⟩)
  | .ifElse _ c e o =>
      .other nofun nofun (List.forall_mem_cons.mpr
        ⟨.one nofun nofun (Expression.filled c), List.forall_mem_cons.mpr
          ⟨Expression.filled e, List.forall_mem_singleton.mpr (Expression.filled o)⟩⟩)
  | .forLoop _ _ q e =>
      .other nofun nofun (List.forall_mem_cons.mpr
        ⟨.leaf nofun nofun, List.forall_mem_cons.mpr
          ⟨Expression.filled q, List.forall_mem_singleton.mpr (Expression.filled e)⟩⟩)
  | .whileLoop _ c e =>
      .other nofun nofun (List.forall_mem_cons.mpr
        ⟨.one nofun nofun (Expression.filled c),
          List.forall_mem_singleton.mpr (Expression.filled e)⟩)
  | .repeatLoop _ e => .one nofun nofun (Expression.filled e)
  | .help _ e => .one nofun nofun (Expression.filled e)
  | .paren e => Expression.filled e
  | .nested e => Expression.filled e

theorem Group.filled : ∀ g : Group, g.node.Filled
  | .mk loc _ slots => by
      refine Node.Filled.other nofun nofun fun n hn => ?_
      have hslots := argumentNodes_filled slots
      unfold Node.arguments at hn
      split at hn
      · cases hn
      · exact hslots n hn
      · obtain rfl := List.mem_singleton.mp hn
        exact .other nofun nofun hslots

theorem Argument.filled : ∀ a : Argument, ∀ n ∈ a.nodes, n.Filled
  | .empty => fun _ h => by cases h
  | .value e => List.forall_mem_singleton.mpr (Expression.filled e)
  | .name n => List.forall_mem_singleton.mpr n.filled
  | .named n e => List.forall_mem_cons.mpr
      ⟨n.filled, List.forall_mem_singleton.mpr (Expression.filled e)⟩

theorem Formal.filled : ∀ f : Formal, ∀ n ∈ f.nodes, n.Filled
  | .required _ => List.forall_mem_singleton.mpr (.leaf nofun nofun)
  | .defaulted _ e => List.forall_mem_cons.mpr
      ⟨.leaf nofun nofun, List.forall_mem_singleton.mpr (Expression.filled e)⟩

theorem expressionNodes_filled : ∀ es : List Expression, ∀ n ∈ expressionNodes es, n.Filled
  | [] => fun _ h => by cases h
  | e :: es => List.forall_mem_cons.mpr ⟨Expression.filled e, expressionNodes_filled es⟩

theorem groupNodes_filled : ∀ gs : List Group, ∀ n ∈ groupNodes gs, n.Filled
  | [] => fun _ h => by cases h
  | g :: gs => List.forall_mem_cons.mpr ⟨Group.filled g, groupNodes_filled gs⟩

theorem argumentNodes_filled : ∀ as : List Argument, ∀ n ∈ argumentNodes as, n.Filled
  | [] => fun _ h => by cases h
  | a :: as => List.forall_mem_append.mpr ⟨Argument.filled a, argumentNodes_filled as⟩

theorem formalNodes_filled : ∀ fs : List Formal, ∀ n ∈ formalNodes fs, n.Filled
  | [] => fun _ h => by cases h
  | f :: fs => List.forall_mem_append.mpr ⟨Formal.filled f, formalNodes_filled fs⟩

end

theorem Program.filled (p : Program) : ∀ n ∈ p.nodes, n.IsFilled := by
  intro n hn
  obtain ⟨v, hv, rfl⟩ := List.mem_map.mp hn
  have hp : p.node.Filled := .other nofun nofun (expressionNodes_filled p.statements)
  exact hp 0 v hv

/-! ## Normal form -/

/-- The constant that a token may be as the name of an argument. -/
theorem ArgName.isNormal_ofToken? {t : Token} {n : ArgName} (h : ofToken? t = some n) :
    n.IsNormal := by
  unfold ofToken? at h
  split at h
  · cases h
    trivial
  · cases h
    trivial
  · rename_i hk
    simp only [Constant.ofToken?, hk, ConstantKind.ofKind?, Option.map_some, Option.some.injEq] at h
    subst h
    exact Or.inl rfl
  · rename_i hk
    simp only [Constant.ofToken?, hk, ConstantKind.ofKind?, Option.map_some, Option.some.injEq] at h
    subst h
    exact Or.inr rfl
  · cases h

/-- A nested expression without calls and subscripts is in normal form if it has an operator. -/
theorem Term.isNormal_nested {e : Expression} (h : ¬ e.IsTerm) :
    (Term.mk (.nested e) []).IsNormal := by
  constructor
  case operator =>
    intro x hx
    cases hx
    exact h
  case component => exact fun _ _ hne => absurd rfl hne
  case callable => exact fun hne => absurd rfl hne
  case names => exact fun _ hg => by cases hg

/-- An operand that has not been nested is in normal form. -/
theorem Term.isNormal_bare {o : Operand} (h : ∀ e, o ≠ .nested e) : (Term.mk o []).IsNormal := by
  constructor
  case operator => exact fun e he => absurd he (h e)
  case component => exact fun _ _ hne => absurd rfl hne
  case callable => exact fun hne => absurd rfl hne
  case names => exact fun _ hg => by cases hg

namespace Grammar

variable {E : ExprReads} {s s' : Tape} {close : TokenKind}

theorem ReadsArgument.names {a : Argument} (h : ReadsArgument E close s a s') {n : ArgName}
    (hn : a.name? = some n) : n.IsNormal := by
  cases h with
  | value => cases hn
  | name _ ht | named _ ht =>
      cases hn
      exact ArgName.isNormal_ofToken? ht

theorem ReadsSlot.names {a : Argument} (h : ReadsSlot E close s a s') {n : ArgName}
    (hn : a.name? = some n) : n.IsNormal := by
  cases h with
  | empty => cases hn
  | filled _ _ ha => exact ha.names hn

theorem ReadsSlots.names {as : List Argument} (h : ReadsSlots E close s as s') :
    ∀ a ∈ as, ∀ n, a.name? = some n → n.IsNormal := by
  induction h with
  | last ha =>
      intro a hmem n hn
      obtain rfl := List.mem_singleton.mp hmem
      exact ha.names hn
  | trailing ha =>
      intro a hmem n hn
      rcases List.mem_cons.mp hmem with rfl | hmem
      · exact ha.names hn
      · obtain rfl := List.mem_singleton.mp hmem
        cases hn
  | more ha _ _ _ _ _ ih =>
      intro a hmem n hn
      rcases List.mem_cons.mp hmem with rfl | hmem
      · exact ha.names hn
      · exact ih a hmem n hn

theorem ReadsGroups.names {gs : List Group} (h : ReadsGroups E s gs s') :
    ∀ g ∈ gs, ∀ a ∈ g.slots, ∀ n, a.name? = some n → n.IsNormal := by
  induction h with
  | stop => exact fun _ hg => by cases hg
  | more hg _ ih =>
      intro g hmem
      rcases List.mem_cons.mp hmem with rfl | hmem
      · cases hg with
        | mk _ _ _ ha _ =>
            cases ha with
            | none => exact fun _ h => by cases h
            | some _ _ hs => exact hs.names
      · exact ih g hmem

theorem ReadsOperand.isPlain {o : Operand} (h : ReadsOperand E s o s') : o.IsPlain := by
  cases h <;> trivial

/-- A term is in normal form: behind a form no brackets are left. -/
theorem ReadsTerm.isNormal (hT : Tied E) {t : Term} (h : ReadsTerm E s t s') : t.IsNormal := by
  cases h with
  | @mk s₁ _ o gs ho hg =>
      have hplain := ho.isPlain.ne_nested
      constructor
      case operator => exact fun x hx => absurd hx (hplain x)
      case component => exact fun x hx => absurd hx (hplain x)
      case callable =>
        intro hne
        obtain ⟨-, ⟨-, hcallable⟩ | ⟨-, hends⟩⟩ := ho.shape hT
        · exact hcallable gs
        · obtain ⟨u, hu, hnone, -⟩ := hends.front
          obtain ⟨-, hnil, -⟩ | ⟨hsome, -⟩ := hg.of_front hu
          · exact absurd hnil hne
          · rw [hnone] at hsome
            cases hsome
      case names => exact hg.names

/-- Behind a component the calls and subscripts leave the term in normal form. -/
theorem Open.isNormal_called {m : Nat} {lhs : Expression} {t : Token} {gs : List Group}
    (h : Open m lhs s) (ht : s.front = .ok t) (hb : (Brackets.ofKind? t.kind).isSome = true)
    (hg : ReadsGroups E s gs s') : (Term.mk (.nested lhs) gs).IsNormal := by
  have hcomponent := h.brackets t ht hb
  cases lhs with
  | binary loc op l r =>
      constructor
      case operator =>
        intro x hx
        cases hx
        exact id
      case component =>
        intro x hx _
        cases hx
        exact ⟨_, _, _, _, rfl, hcomponent⟩
      case callable => exact fun _ => hcomponent
      case names => exact hg.names
  | term | unary | assign => exact hcomponent.elim

/-- The terms of all expressions are in normal form. -/
theorem throughout_isNormal (levels : Nat) :
    Throughout (fun _ => True) (fun e => ∀ t ∈ e.terms, t.IsNormal) (ReadsExpression levels) := by
  refine throughout_readsExpression (fun _ _ _ _ => trivial) ?_ levels
  intro levels hE
  have hT := tied_readsExpression levels
  apply rooted_terms hE
  case nested => exact fun e he => Term.isNormal_nested he
  case help => exact fun _ _ => Term.isNormal_bare fun _ => nofun
  case term => exact fun h _ => h.isNormal hT
  case bare => exact fun h => Term.isNormal_bare h.isPlain.ne_nested
  case called => exact fun hopen ht hb hg _ => hopen.isNormal_called ht hb hg

/-- The components of all expressions are plain. -/
theorem throughout_hasPlainComponent (levels : Nat) :
    Throughout (fun _ => True) Expression.HasPlainComponent (ReadsExpression levels) := by
  refine throughout_readsExpression (fun _ _ _ _ => trivial) ?_ levels
  intro levels _
  constructor
  case leading =>
    intro t s s' e h _
    cases h <;> exact fun _ _ _ _ h => by cases h
  case bare => exact fun _ _ _ _ _ h => by cases h
  case called => exact fun _ _ _ _ _ _ _ _ _ h => by cases h
  case joined =>
    intro loc lhs rhs e t p s s' _ _ hright hj
    unfold joined? at hj
    split at hj
    · cases hj
      exact fun _ _ _ _ h => by cases h
    · split at hj
      · rename_i b hb
        cases hj
        obtain ⟨hk, -⟩ := BinaryOp.kind_ofToken? hb
        intro loc' op l r heq hc
        cases heq
        rw [hk] at hc
        cases hright with
        | bare _ _ ho => exact ⟨ho.isPlain, rfl⟩
        | full hnot _ => exact absurd hc hnot
      · cases hj

end Grammar

/-- **The tree of an accepted source is in normal form**, in every expression, and all its nodes
around lists are filled: whatever an expression is read by, a list is left out or filled by the
parse that reads it. -/
theorem normal_of_parse {bytes : List UInt8} {p : Program} (h : parse bytes = .ok p) :
    (∀ e ∈ p.expressions, e.IsNormal) ∧ (∀ n ∈ p.nodes, n.IsFilled) ∧
      ∀ expr bound, Grammar.ListsFilled expr bound := by
  obtain ⟨_, _, _, _, hs⟩ := Grammar.readsProgram_of_parse h
  refine ⟨fun e he => ?_, p.filled, Grammar.listsFilled⟩
  constructor
  case terms => exact hs.throughout (Grammar.throughout_isNormal maxNesting) trivial e he
  case right => exact hs.throughout (Grammar.throughout_hasPlainComponent maxNesting) trivial e he

/-- A call behind a component stands behind the whole of it. -/
theorem normal_of_parse_of_component :
    Expression.IsNormal (.term ⟨1, 1⟩ (.mk (.nested (.binary ⟨1, 1⟩ .component
      (.mk (.identifier ⟨⟨1, 1⟩, "x", false⟩) []) (.mk (.identifier ⟨⟨1, 3⟩, "y", false⟩) [])))
      [.mk ⟨1, 5⟩ .call [.name (.constant ⟨⟨1, 5⟩, .null, "NULL"⟩)]])) := by
  have h : parse "x$y(NULL=)".toUTF8.data.toList =
      .ok ⟨[.term ⟨1, 1⟩ (.mk (.nested (.binary ⟨1, 1⟩ .component
        (.mk (.identifier ⟨⟨1, 1⟩, "x", false⟩) []) (.mk (.identifier ⟨⟨1, 3⟩, "y", false⟩) [])))
        [.mk ⟨1, 5⟩ .call [.name (.constant ⟨⟨1, 5⟩, .null, "NULL"⟩)]])]⟩ := by rfl
  exact (normal_of_parse h).1 _ List.mem_cons_self

end RSource
