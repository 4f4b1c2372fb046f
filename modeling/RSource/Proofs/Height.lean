import RSource.Proofs.Cutting
import RSource.Proofs.Nesting
import RSource.Proofs.NormalForm
import RSource.Proofs.Parts
import RSource.Proofs.RoundTrip

/-!
# The height of trees

A level of nesting is a few nodes high, and every step to a child goes to a part that is nested as
deep at most. Only a left operand is nested as deep as the whole: it is read by a loop and not by
a parse inside the parse. So a path that leads from left operand to left operand may be of any
length.

* `Part.children` — the parts that a part holds.
* `Part.leftSteps` — how often a path goes from an expression to an expression on its left.
* `Part.cap` — how long a path from a part on may be, such steps apart.
* `Part.below_child`, `Part.cap_child` — **every other step leaves less**.
* `height_bounded` — **the height of a tree is bounded, left operands apart**.
* `sumOfOnes_climbs` — **trees of any height are accepted**: a sum is as high as it is long.
-/

namespace RSource

/-! ## Children -/

/-- An operand as a part. That of an operand in parentheses is the expression inside. -/
def Operand.part : Operand → Part
  | .identifier i => .identifier i
  | .constant c => .constant c
  | .block loc es closing => .block loc es closing
  | .function loc fs e => .function loc fs e
  | .ifThen loc c e => .ifForm loc c e none
  | .ifElse loc c e o => .ifForm loc c e (some o)
  | .forLoop loc i s e => .forLoop loc i s e
  | .whileLoop loc c e => .whileLoop loc c e
  | .repeatLoop loc e => .repeatLoop loc e
  | .help loc e => .help loc e
  | .paren e | .nested e => .expression e

/-- The operand of a term, and the list around what stands behind it. -/
def Term.children : Term → List Part
  | .mk o [] => [o.part]
  | .mk o (g :: gs) => [o.part, .groups g gs]

/-- What a slot holds. -/
def Argument.children : Argument → List Part
  | .empty => []
  | .value e => [.expression e]
  | .name n => [.ofArgName n]
  | .named n e => [.ofArgName n, .expression e]

/-- What a formal holds. -/
def Formal.children : Formal → List Part
  | .required i => [.identifier i]
  | .defaulted i e => [.identifier i, .expression e]

namespace Part

/-- The parts that a part holds itself. -/
def children : Part → List Part
  | program p => p.statements.map expression
  | expression (.term _ t) | expression (.unary _ _ t) => t.children
  | expression (.binary _ _ l r) => l.children ++ r.children
  | expression (.assign _ l opLoc op v) => l.children ++ [assignment opLoc op v]
  | condition e => [expression e]
  | expressionList es _ => es.map expression
  | groups g gs => (g :: gs).map group
  | group (.mk _ _ []) => []
  | group (.mk _ _ [.value e]) => [expression e]
  | group (.mk loc _ slots) => [arguments loc slots]
  | formals f fs => (f :: fs).flatMap Formal.children
  | arguments _ slots => slots.flatMap Argument.children
  | assignment _ _ v => [expression v]
  | block _ es closing => [expressionList es closing]
  | constant _ | identifier _ => []
  | forLoop _ i s e => [identifier i, expression s, expression e]
  | function _ [] e => [expression e]
  | function _ (f :: fs) e => [formals f fs, expression e]
  | help _ e | repeatLoop _ e => [expression e]
  | ifForm _ c e none => [condition c, expression e]
  | ifForm _ c e (some o) => [condition c, expression e, expression o]
  | whileLoop _ c e => [condition c, expression e]

end Part

theorem Operand.node_part (o : Operand) : o.part.node = o.node := by cases o <;> rfl

theorem Term.map_node_children (t : Term) : t.children.map Part.node = t.nodes := by
  obtain ⟨o, _ | ⟨g, gs⟩⟩ := t
  · exact congrArg (· :: []) o.node_part
  · exact congrArg (· :: _) o.node_part

theorem expressionNodes_eq (es : List Expression) :
    (es.map Part.expression).map Part.node = expressionNodes es := by
  induction es with
  | nil => rfl
  | cons e es ih => rw [List.map_cons, List.map_cons, ih, expressionNodes]; rfl

theorem groupNodes_eq (gs : List Group) : (gs.map Part.group).map Part.node = groupNodes gs := by
  induction gs with
  | nil => rfl
  | cons g gs ih => rw [List.map_cons, List.map_cons, ih, groupNodes]; rfl

theorem argumentNodes_eq (as : List Argument) :
    (as.flatMap Argument.children).map Part.node = argumentNodes as := by
  induction as with
  | nil => rfl
  | cons a as ih =>
    rw [List.flatMap_cons, List.map_append, ih, argumentNodes]
    cases a with
    | empty | value e => rfl
    | name n | named n e => exact congrArg (· :: _) (Part.node_ofArgName n)

theorem formalNodes_eq (fs : List Formal) :
    (fs.flatMap Formal.children).map Part.node = formalNodes fs := by
  induction fs with
  | nil => rfl
  | cons f fs ih =>
    rw [List.flatMap_cons, List.map_append, ih, formalNodes]
    cases f <;> rfl

/-- The nodes below a part are those of the parts that it holds. -/
theorem Part.map_node_children (q : Part) : q.children.map node = q.node.children := by
  cases q with
  | program p => exact expressionNodes_eq _
  | expression e =>
    cases e with
    | term loc t | unary loc op t => exact t.map_node_children
    | binary loc op l r =>
      rw [children, List.map_append, l.map_node_children, r.map_node_children]
      rfl
    | assign loc l opLoc op v =>
      rw [children, List.map_append, l.map_node_children]
      rfl
  | expressionList es closing => exact expressionNodes_eq _
  | groups g gs => exact groupNodes_eq _
  | group g =>
    obtain ⟨loc, kind, slots⟩ := g
    match slots with
    | [] | [.empty] | [.value e] | [.name n] | [.named n e] => rfl
    | a :: b :: as => cases a <;> rfl
  | formals f fs => exact formalNodes_eq _
  | arguments loc slots => exact argumentNodes_eq _
  | function loc fs e =>
    cases fs with
    | nil => rfl
    | cons f fs => rfl
  | ifForm loc c e o => cases o <;> rfl
  | _ => rfl

/-! ## Left operands -/

/-- The operand of the term is an expression with an operator. -/
def Term.isNested : Term → Bool
  | .mk (.nested _) _ => true
  | _ => false

namespace Part

/-- The first child of the part is an expression that an operator or brackets of the part stand
behind. -/
def opensNested : Part → Bool
  | expression (.term _ t) | expression (.binary _ _ t _) | expression (.assign _ t _ _ _) =>
      t.isNested
  | _ => false

/-- Whether the step to a child goes to the left operand, one with an operator of its own. -/
def isLeftStep (q : Part) (i : Nat) : Bool := q.opensNested && i == 0

/-- How often a path from a part on goes to such a left operand. -/
def leftSteps : List Nat → Part → Nat
  | [], _ => 0
  | i :: path, q =>
      match q.children[i]? with
      | none => 0
      | some child => (q.isLeftStep i).toNat + leftSteps path child

/-! ## Nesting of parts -/

/-- The deepest nesting of an expression inside a part. -/
def inner : Part → Nat
  | program p => innerExpressions p.statements
  | expression e => e.inner
  | condition e => 1 + e.inner
  | expressionList es _ => innerExpressions es
  | groups g gs => innerGroups (g :: gs)
  | group g => g.inner
  | formals f fs => innerFormals (f :: fs)
  | arguments _ slots => innerArguments slots
  | assignment _ _ v => 1 + v.inner
  | block loc es closing => (Operand.block loc es closing).inner
  | constant _ | identifier _ => 0
  | forLoop loc i s e => (Operand.forLoop loc i s e).inner
  | function loc fs e => (Operand.function loc fs e).inner
  | help loc e => (Operand.help loc e).inner
  | ifForm loc c e none => (Operand.ifThen loc c e).inner
  | ifForm loc c e (some o) => (Operand.ifElse loc c e o).inner
  | repeatLoop loc e => (Operand.repeatLoop loc e).inner
  | whileLoop loc c e => (Operand.whileLoop loc c e).inner

/-- All expressions in a part. -/
def expressions : Part → List Expression
  | program p => p.expressions
  | expression e | condition e | assignment _ _ e => e.all
  | expressionList es _ => statementsAll es
  | groups g gs => groupsAll (g :: gs)
  | group g => g.all
  | formals f fs => formalsAll (f :: fs)
  | arguments _ slots => argumentsAll slots
  | block loc es closing => (Operand.block loc es closing).all
  | constant _ | identifier _ => []
  | forLoop loc i s e => (Operand.forLoop loc i s e).all
  | function loc fs e => (Operand.function loc fs e).all
  | help loc e => (Operand.help loc e).all
  | ifForm loc c e none => (Operand.ifThen loc c e).all
  | ifForm loc c e (some o) => (Operand.ifElse loc c e o).all
  | repeatLoop loc e => (Operand.repeatLoop loc e).all
  | whileLoop loc c e => (Operand.whileLoop loc c e).all

/-- How long a path from a part on may be before it comes to an expression that counts. -/
def rank : Part → Nat
  | expression _ => 4
  | groups _ _ => 3
  | group _ | block _ _ _ | function _ _ _ | ifForm _ _ _ _ | whileLoop _ _ _ => 2
  | constant _ | identifier _ => 0
  | _ => 1

/-- How long a path from a part on may be, steps to the left operand apart. -/
def cap (q : Part) : Nat := 4 * q.inner + q.rank

end Part

/-! ## Steps to children -/

/-- Paths from the part on are no longer than that, left operands apart, and all expressions in it
are some of these. -/
structure Part.FitsIn (r : Part) (n : Nat) (es : List Expression) : Prop where
  cap_le : r.cap ≤ n
  expressions : r.expressions ⊆ es

namespace Part.FitsIn

variable {r : Part} {n m : Nat} {es es' : List Expression}

theorem mono (h : r.FitsIn n es) (hn : n ≤ m) (hes : es ⊆ es') : r.FitsIn m es' :=
  ⟨Nat.le_trans h.cap_le hn, List.Subset.trans h.expressions hes⟩

theorem left (h : r.FitsIn n es) (hn : n ≤ m) : r.FitsIn m (es ++ es') :=
  h.mono hn (List.subset_append_left _ _)

theorem right (h : r.FitsIn n es) (hn : n ≤ m) : r.FitsIn m (es' ++ es) :=
  h.mono hn (List.subset_append_right _ _)

/-- An expression that counts as nested. -/
theorem ofNested (e : Expression) : (expression e).FitsIn (4 * (1 + e.inner)) e.all :=
  ⟨by simp only [cap, inner, rank]; omega, List.Subset.refl _⟩

theorem ofName (i : Identifier) : (identifier i).FitsIn n es :=
  ⟨Nat.zero_le n, List.nil_subset es⟩

theorem ofArgName (a : ArgName) : (Part.ofArgName a).FitsIn n es := by
  cases a <;> exact ⟨Nat.zero_le n, List.nil_subset es⟩

end Part.FitsIn

/-- What holds of the first of some items and of those behind it, each with its own bound, holds
of all with the greater one. -/
theorem fitsIn_max {r : Part} {m n : Nat} {k : Nat} {es es' : List Expression}
    (h : r.FitsIn (4 * m + k) es ∨ r.FitsIn (4 * n + k) es') :
    r.FitsIn (4 * max m n + k) (es ++ es') := by
  rcases h with h | h
  · exact h.left (by omega)
  · exact h.right (by omega)

theorem fitsIn_statements {es : List Expression} {r : Part} (h : r ∈ es.map Part.expression) :
    r.FitsIn (4 * innerExpressions es) (statementsAll es) := by
  induction es with
  | nil => cases h
  | cons e es ih =>
    refine fitsIn_max (k := 0) ?_
    rcases List.mem_cons.mp h with rfl | h
    · exact .inl (.ofNested e)
    · exact .inr (ih h)

theorem Argument.fitsIn_children {a : Argument} {r : Part} (h : r ∈ a.children) :
    r.FitsIn (4 * a.inner) a.all := by
  cases a with
  | empty => cases h
  | value e =>
    cases List.mem_singleton.mp h
    exact .ofNested e
  | name n =>
    cases List.mem_singleton.mp h
    exact .ofArgName n
  | named n e =>
    rcases List.mem_pair.mp h with rfl | rfl
    · exact .ofArgName n
    · exact .ofNested e

theorem fitsIn_arguments {as : List Argument} {r : Part} (h : r ∈ as.flatMap Argument.children) :
    r.FitsIn (4 * innerArguments as) (argumentsAll as) := by
  induction as with
  | nil => cases h
  | cons a as ih =>
    refine fitsIn_max (k := 0) ?_
    rw [List.flatMap_cons, List.mem_append] at h
    exact h.imp Argument.fitsIn_children ih

theorem Formal.fitsIn_children {f : Formal} {r : Part} (h : r ∈ f.children) :
    r.FitsIn (4 * f.inner) f.all := by
  cases f with
  | required i =>
    cases List.mem_singleton.mp h
    exact .ofName i
  | defaulted i e =>
    rcases List.mem_pair.mp h with rfl | rfl
    · exact .ofName i
    · exact .ofNested e

theorem fitsIn_formals {fs : List Formal} {r : Part} (h : r ∈ fs.flatMap Formal.children) :
    r.FitsIn (4 * innerFormals fs) (formalsAll fs) := by
  induction fs with
  | nil => cases h
  | cons f fs ih =>
    refine fitsIn_max (k := 0) ?_
    rw [List.flatMap_cons, List.mem_append] at h
    exact h.imp Formal.fitsIn_children ih

theorem fitsIn_groups {gs : List Group} {r : Part} (h : r ∈ gs.map Part.group) :
    r.FitsIn (4 * innerGroups gs + 2) (groupsAll gs) := by
  induction gs with
  | nil => cases h
  | cons g gs ih =>
    refine fitsIn_max ?_
    rcases List.mem_cons.mp h with rfl | h
    · exact .inl ⟨Nat.le_refl _, List.Subset.refl _⟩
    · exact .inr (ih h)

/-- Only from an expression with an operator of its own paths are as long as from the whole. -/
theorem Operand.fitsIn_part (o : Operand) :
    o.part.FitsIn (4 * o.inner + 2) o.all ∨
      ∃ e, o = .nested e ∧ o.part.FitsIn (4 * o.inner + 4) o.all := by
  cases o with
  | nested e => exact .inr ⟨e, rfl, Nat.le_refl _, List.Subset.refl _⟩
  | paren e =>
    exact .inl ((Part.FitsIn.ofNested e).mono (Nat.le_add_right _ 2) (List.Subset.refl _))
  | identifier | constant => exact .inl ⟨Nat.zero_le _, List.nil_subset _⟩
  | _ =>
    left
    refine ⟨?_, List.Subset.refl _⟩
    simp [part, Part.cap, Part.inner, Part.rank]

theorem Term.fitsIn_children {t : Term} {i : Nat} {r : Part} (h : t.children[i]? = some r) :
    r.FitsIn (4 * t.inner + 3) t.all ∨
      t.isNested = true ∧ i = 0 ∧ r.FitsIn (4 * t.inner + 4) t.all := by
  obtain ⟨o, gs⟩ := t
  have hfirst : o.part.FitsIn (4 * (Term.mk o gs).inner + 3) (Term.mk o gs).all ∨
      (Term.mk o gs).isNested = true ∧
        o.part.FitsIn (4 * (Term.mk o gs).inner + 4) (Term.mk o gs).all := by
    simp only [inner, all]
    rcases o.fitsIn_part with h | ⟨e, rfl, h⟩
    · exact .inl (h.left (by omega))
    · exact .inr ⟨rfl, h.left (by omega)⟩
  have hgroups {g : Group} {gs' : List Group} (hgs : gs = g :: gs') :
      (Part.groups g gs').FitsIn (4 * (Term.mk o gs).inner + 3) (Term.mk o gs).all := by
    subst hgs
    refine ⟨?_, List.subset_append_right _ _⟩
    simp only [Part.cap, Part.inner, Part.rank, inner]
    omega
  rcases i with _ | _ | i
  · obtain rfl : o.part = r := by cases gs <;> exact Option.some.inj h
    exact hfirst.imp_right fun h => ⟨h.1, rfl, h.2⟩
  · cases gs with
    | nil => cases h
    | cons g gs =>
      cases h
      exact .inl (hgroups rfl)
  · cases gs <;> cases h

theorem BinaryOp.levels_or_isComponent (op : BinaryOp) : op.levels = 1 ∨ op.kind.isComponent := by
  cases op <;> first | exact .inl rfl | exact .inr (.inl rfl) | exact .inr (.inr rfl)

theorem Term.not_isNested_of_isPlain {t : Term} (h : t.operand.IsPlain) : ¬ t.isNested = true := by
  obtain ⟨o, gs⟩ := t
  cases o with
  | nested e => exact h.elim
  | _ => exact Bool.false_ne_true

/-- A child of the left operand, or of the only one, is a child of the expression. -/
theorem Expression.fitsIn_left {e : Expression} {t : Term} {i : Nat} {r : Part}
    (ht : t.children[i]? = some r) (hopens : (Part.expression e).opensNested = t.isNested)
    (hinner : t.inner ≤ e.inner) (hes : t.all ⊆ e.all) :
    r.FitsIn (4 * e.inner + 3) e.all ∨
      (Part.expression e).isLeftStep i = true ∧ r.FitsIn (4 * e.inner + 4) e.all := by
  rcases t.fitsIn_children ht with hr | ⟨hn, rfl, hr⟩
  · exact .inl (hr.mono (by omega) hes)
  · refine .inr ⟨?_, hr.mono (by omega) hes⟩
    rw [Part.isLeftStep, hopens, hn]
    rfl

/-- From an expression only the step to its left operand leaves a path as long as before. -/
theorem Expression.fitsIn_child {e : Expression} (hplain : e.HasPlainComponent) {i : Nat}
    {r : Part} (h : (Part.expression e).children[i]? = some r) :
    r.FitsIn (4 * e.inner + 3) e.all ∨
      (Part.expression e).isLeftStep i = true ∧ r.FitsIn (4 * e.inner + 4) e.all := by
  cases e with
  | term loc t => exact fitsIn_left h rfl (Nat.le_refl _) (List.subset_cons_self _ _)
  | unary loc op t =>
    left
    have hinner : (unary loc op t).inner = 1 + t.inner := by rw [inner]
    rcases t.fitsIn_children h with hr | ⟨-, -, hr⟩
    · exact hr.mono (by omega) (List.subset_cons_self _ _)
    · exact hr.mono (by omega) (List.subset_cons_self _ _)
  | binary loc op l r' =>
    have hinner : (binary loc op l r').inner = max l.inner (op.levels + r'.inner) := by rw [inner]
    have hall : (binary loc op l r').all = binary loc op l r' :: (l.all ++ r'.all) := by rw [all]
    rw [Part.children, List.getElem?_append] at h
    split at h
    · refine fitsIn_left h rfl (by omega) ?_
      rw [hall]
      exact List.subset_cons_of_subset _ (List.subset_append_left _ _)
    · left
      have hes : r'.all ⊆ (binary loc op l r').all := by
        rw [hall]
        exact List.subset_cons_of_subset _ (List.subset_append_right _ _)
      rcases r'.fitsIn_children h with hr | ⟨hn, -, hr⟩
      · exact hr.mono (by omega) hes
      · -- The right operand of `$` and `@` is plain, and any other lies a level deeper.
        rcases op.levels_or_isComponent with hlevels | hcomponent
        · exact hr.mono (by omega) hes
        · have hplain := (hplain loc op l r' rfl hcomponent).1
          exact absurd hn (Term.not_isNested_of_isPlain hplain)
  | assign loc l opLoc op v =>
    have hinner : (assign loc l opLoc op v).inner = max l.inner (1 + v.inner) := by rw [inner]
    have hall : (assign loc l opLoc op v).all = assign loc l opLoc op v :: (l.all ++ v.all) := by
      rw [all]
    rw [Part.children, List.getElem?_append] at h
    split at h
    · refine fitsIn_left h rfl (by omega) ?_
      rw [hall]
      exact List.subset_cons_of_subset _ (List.subset_append_left _ _)
    · left
      cases List.mem_singleton.mp (List.mem_of_getElem? h)
      refine ⟨?_, ?_⟩
      · simp only [Part.cap, Part.inner, Part.rank]
        omega
      · rw [hall]
        exact List.subset_cons_of_subset _ (List.subset_append_right _ _)

/-- Paths from `r` on are shorter than from `q` on, and all expressions in it are in `q`. -/
structure Part.Below (r q : Part) : Prop where
  cap_lt : r.cap < q.cap
  expressions : r.expressions ⊆ q.expressions

namespace Part

variable {q r : Part}

theorem FitsIn.below {n k : Nat} {es : List Expression} (h : r.FitsIn (4 * n + k) es)
    (hn : n ≤ q.inner) (hk : k < q.rank) (hes : es ⊆ q.expressions) : r.Below q := by
  refine ⟨?_, List.Subset.trans h.expressions hes⟩
  have hcap : q.cap = 4 * q.inner + q.rank := rfl
  have := h.cap_le
  omega

theorem below_expression {e : Expression} (hn : 1 + e.inner ≤ q.inner) (hk : 0 < q.rank)
    (hes : e.all ⊆ q.expressions) : (expression e).Below q :=
  (FitsIn.ofNested e).below (k := 0) hn hk hes

theorem below_condition {e : Expression} (hn : 1 + e.inner ≤ q.inner) (hk : 1 < q.rank)
    (hes : e.all ⊆ q.expressions) : (condition e).Below q :=
  FitsIn.below (k := 1) ⟨Nat.le_refl _, List.Subset.refl _⟩ hn hk hes

theorem below_identifier (i : Identifier) (hk : 0 < q.rank) : (identifier i).Below q := by
  have hi : (identifier i).FitsIn (4 * 0 + 0) [] := .ofName i
  exact hi.below (Nat.zero_le _) hk (List.nil_subset _)

theorem below_group {g : Group} (h : r ∈ (group g).children) : r.Below (group g) := by
  obtain ⟨loc, kind, slots⟩ := g
  have harguments : (arguments loc slots).Below (group (.mk loc kind slots)) :=
    FitsIn.below (k := 1) ⟨Nat.le_refl _, List.Subset.refl _⟩ (Nat.le_refl _) (Nat.le_refl _)
      (List.Subset.refl _)
  match slots with
  | [] => cases h
  | [.value e] =>
    cases List.mem_singleton.mp h
    exact below_expression (Nat.le_max_left _ _) Nat.two_pos (List.subset_append_left _ _)
  | [.empty] | [.name n] | [.named n e] =>
    cases List.mem_singleton.mp h
    exact harguments
  | a :: b :: as =>
    have hr : r = arguments loc (a :: b :: as) := List.mem_singleton.mp (by cases a <;> exact h)
    rwa [hr]

theorem below_function {loc : Location} {fs : List Formal} {e : Expression}
    (h : r ∈ (function loc fs e).children) : r.Below (function loc fs e) := by
  have hbody : (expression e).Below (function loc fs e) :=
    below_expression (Nat.le_max_right _ _) Nat.two_pos (List.subset_append_right _ _)
  cases fs with
  | nil =>
    cases List.mem_singleton.mp h
    exact hbody
  | cons f fs =>
    rcases List.mem_pair.mp h with rfl | rfl
    · exact FitsIn.below (k := 1) ⟨Nat.le_refl _, List.Subset.refl _⟩ (Nat.le_max_left _ _)
        (Nat.le_refl _) (List.subset_append_left _ _)
    · exact hbody

theorem below_ifForm {loc : Location} {c e : Expression} {o : Option Expression}
    (h : r ∈ (ifForm loc c e o).children) : r.Below (ifForm loc c e o) := by
  cases o with
  | none =>
    rcases List.mem_pair.mp h with rfl | rfl
    · exact below_condition (Nat.le_max_left _ _) (Nat.le_refl _) (List.subset_append_left _ _)
    · exact below_expression (Nat.le_max_right _ _) Nat.two_pos (List.subset_append_right _ _)
  | some o =>
    have hinner : (ifForm loc c e (some o)).inner =
        max (1 + c.inner) (max (1 + e.inner) (1 + o.inner)) := rfl
    simp only [children, List.mem_cons, List.not_mem_nil, or_false] at h
    rcases h with rfl | rfl | rfl
    · exact below_condition (by omega) (Nat.le_refl _) (List.subset_append_left _ _)
    · exact below_expression (by omega) Nat.two_pos
        (List.subset_append_of_subset_right _ (List.subset_append_left _ _))
    · exact below_expression (by omega) Nat.two_pos
        (List.subset_append_of_subset_right _ (List.subset_append_right _ _))

/-- From a child of anything but an expression paths are shorter. -/
theorem below_child (hq : ∀ e, q ≠ expression e) (h : r ∈ q.children) : r.Below q := by
  cases q with
  | expression e => exact absurd rfl (hq e)
  | program p =>
    exact (fitsIn_statements h).below (k := 0) (Nat.le_refl _) Nat.one_pos (List.Subset.refl _)
  | expressionList es closing =>
    exact (fitsIn_statements h).below (k := 0) (Nat.le_refl _) Nat.one_pos (List.Subset.refl _)
  | groups g gs =>
    exact (fitsIn_groups h).below (Nat.le_refl _) (Nat.le_refl _) (List.Subset.refl _)
  | formals f fs =>
    exact (fitsIn_formals h).below (k := 0) (Nat.le_refl _) Nat.one_pos (List.Subset.refl _)
  | arguments loc slots =>
    exact (fitsIn_arguments h).below (k := 0) (Nat.le_refl _) Nat.one_pos (List.Subset.refl _)
  | constant c | identifier i => cases h
  | condition e | assignment loc op e | repeatLoop loc e | help loc e =>
    cases List.mem_singleton.mp h
    exact below_expression (Nat.le_refl _) Nat.one_pos (List.Subset.refl _)
  | block loc es closing =>
    cases List.mem_singleton.mp h
    exact FitsIn.below (k := 1) ⟨Nat.le_refl _, List.Subset.refl _⟩ (Nat.le_refl _) (Nat.le_refl _)
      (List.Subset.refl _)
  | group g => exact below_group h
  | function loc fs e => exact below_function h
  | forLoop loc i s e =>
    simp only [children, List.mem_cons, List.not_mem_nil, or_false] at h
    rcases h with rfl | rfl | rfl
    · exact below_identifier i Nat.one_pos
    · exact below_expression (Nat.le_max_left _ _) Nat.one_pos (List.subset_append_left _ _)
    · exact below_expression (Nat.le_max_right _ _) Nat.one_pos (List.subset_append_right _ _)
  | whileLoop loc c e =>
    rcases List.mem_pair.mp h with rfl | rfl
    · exact below_condition (Nat.le_max_left _ _) (Nat.le_refl _) (List.subset_append_left _ _)
    · exact below_expression (Nat.le_max_right _ _) Nat.two_pos (List.subset_append_right _ _)
  | ifForm loc c e o => exact below_ifForm h

/-- **Every step to a child leaves a shorter path**, unless it goes to the left operand. -/
theorem cap_child {i : Nat} (hplain : ∀ e ∈ q.expressions, e.HasPlainComponent)
    (h : q.children[i]? = some r) :
    r.cap + 1 ≤ q.cap + (q.isLeftStep i).toNat ∧ r.expressions ⊆ q.expressions := by
  by_cases hq : ∃ e, q = expression e
  · obtain ⟨e, rfl⟩ := hq
    rcases e.fitsIn_child (hplain e e.mem_all) h with hr | ⟨hleft, hr⟩
    · refine ⟨?_, hr.expressions⟩
      have := hr.cap_le
      simp only [cap, inner, rank] at this ⊢
      omega
    · refine ⟨?_, hr.expressions⟩
      rw [hleft]
      exact Nat.succ_le_succ hr.cap_le
  · have hr := below_child (fun e he => hq ⟨e, he⟩) (List.mem_of_getElem? h)
    exact ⟨Nat.le_add_right_of_le hr.cap_lt, hr.expressions⟩

/-- The node at the end of a step is that of a child. -/
theorem children_of_node {q : Part} {i : Nat} {n : Node} (h : q.node.children[i]? = some n) :
    ∃ r, q.children[i]? = some r ∧ r.node = n := by
  rw [← q.map_node_children, List.getElem?_map] at h
  exact Option.map_eq_some_iff.mp h

/-- A path is no longer than the part allows, left operands apart. -/
theorem length_le_cap {q : Part} {path : List Nat} {n : Node}
    (hplain : ∀ e ∈ q.expressions, e.HasPlainComponent) (h : q.node.follow? path = some n) :
    path.length ≤ q.cap + q.leftSteps path := by
  induction path generalizing q with
  | nil => exact Nat.zero_le _
  | cons i path ih =>
    rw [Node.follow?] at h
    cases hm : q.node.children[i]? with
    | none =>
      rw [hm] at h
      cases h
    | some m =>
      rw [hm] at h
      obtain ⟨r, hr, rfl⟩ := children_of_node hm
      obtain ⟨hcap, hexpressions⟩ := cap_child hplain hr
      have hrest := ih (fun e he => hplain e (hexpressions he)) h
      rw [leftSteps, hr, List.length_cons]
      simp only
      omega

end Part

/-! ## Heights -/

/-- **The height of a tree is bounded, left operands apart.** -/
theorem height_bounded {bytes : List UInt8} {p : Program} (h : parse bytes = .ok p)
    {path : List Nat} {n : Node} (hn : p.node.follow? path = some n) :
    path.length + 1 ≤ 8 * maxNesting + (Part.program p).leftSteps path := by
  obtain ⟨_, _, _, _, hs⟩ := Grammar.readsProgram_of_parse h
  have hplain : ∀ e ∈ p.expressions, e.HasPlainComponent :=
    hs.throughout (Grammar.throughout_hasPlainComponent maxNesting) trivial
  have hinner : innerExpressions p.statements ≤ maxNesting :=
    hs.inner_le fun he => he.nest_le
  have hlength := Part.length_le_cap (q := .program p) hplain hn
  simp only [Part.cap, Part.inner, Part.rank] at hlength
  have hmax : maxNesting = 64 := rfl
  omega

/-- The subscript stands behind the whole component, so the second step goes to the left. -/
theorem height_bounded_of_subscript :
    let p : Program := ⟨[.term ⟨1, 1⟩ (.mk
      (.nested (.binary ⟨1, 1⟩ .component (.mk (.identifier ⟨⟨1, 1⟩, "a", false⟩) [])
        (.mk (.identifier ⟨⟨1, 3⟩, "b", false⟩) [])))
      [.mk ⟨1, 5⟩ .index [.value (.term ⟨1, 5⟩ (.mk (.constant ⟨⟨1, 5⟩, .integer, "1"⟩) []))]])]⟩
    parse "a$b[1]".toUTF8.data.toList = .ok p ∧
      p.node.follow? [0, 0, 1] = some (.mk (.identifier "b" false) ⟨1, 3⟩ []) ∧
      (Part.program p).leftSteps [0, 0, 1] = 1 ∧
      [0, 0, 1].length + 1 ≤ 8 * maxNesting + (Part.program p).leftSteps [0, 0, 1] := by
  intro p
  have hp : parse "a$b[1]".toUTF8.data.toList = .ok p := by rfl
  have hn : p.node.follow? [0, 0, 1] = some (.mk (.identifier "b" false) ⟨1, 3⟩ []) := rfl
  exact ⟨hp, hn, rfl, height_bounded hp hn⟩

/-! ## Sums -/

/-- From the node on, that many steps lead each to the first child. -/
def Node.Climbs (n : Node) (k : Nat) : Prop := ∃ m, n.follow? (List.replicate k 0) = some m

/-- Below an operator stands the operand to its left. -/
theorem Term.climbs_binary {l r : Term} {loc : Location} {op : BinaryOp} {k : Nat}
    (h : l.operand.node.Climbs k) : (Expression.binary loc op l r).node.Climbs (k + 1) := by
  obtain ⟨o, _ | ⟨g, gs⟩⟩ := l <;> exact h

/-- That many times `+1`. -/
def increments : Nat → List Char
  | 0 => []
  | k + 1 => '+' :: '1' :: increments k

/-- The source `1+1+…+1` with that many operators. -/
def sumOfOnes (k : Nat) : List UInt8 := ('1' :: increments k).flatMap String.utf8EncodeChar

namespace Feed

/-- Before a `1` with that many times `+1` behind it. -/
def atOne (k : Cursor) (n : Nat) : Feed := ⟨⟨k, '1' :: increments n⟩, []⟩

/-- Behind that `1`. -/
def behindOne (k : Cursor) (n : Nat) : Feed := ⟨⟨k.advance ['1'], increments n⟩, []⟩

/-- The token that a feed shows is that of its tape. -/
theorem tape_of_shown {s : Feed} {t : Token} {after : Reader}
    (h : s.reader.nextShown s.hides = .ok (t, after)) :
    s.tape.front = .ok t ∧ s.tape.past = Feed.tape ⟨after, s.layouts⟩ := by
  rcases s.nextShown_tape with ⟨e, he, -⟩ | ⟨t', after', ht, hfront, hpast⟩
  · rw [h] at he
    cases he
  · rw [h] at ht
    cases ht
    exact ⟨hfront, hpast.symm⟩

/-- Where a feed has no line feeds in front, neither has its tape. -/
theorem tape_of_skipLines {s : Feed} (h : s.skipLines = .ok s) :
    (∃ t, s.tape.beyond = .ok t) ∧ s.tape.afterLines = s.tape := by
  have hs := s.skipLines_tape
  rw [h] at hs
  cases hb : s.tape.beyond with
  | error e =>
    rw [hb] at hs
    cases hs
  | ok t =>
    rw [hb] at hs
    exact ⟨⟨t, rfl⟩, (Except.ok.inj hs).symm⟩

end Feed

namespace Grammar

/-- A `1` is an operand. -/
theorem readsLeading_one (E : ExprReads) (k : Cursor) (n : Nat) :
    ∃ t c, (Feed.atOne k n).tape.front = .ok t ∧ t.kind = .num .integer ∧
      ReadsLeading E t (Feed.atOne k n).tape (.term t.loc (.mk (.constant c) []))
        (Feed.behindOne k n).tape := by
  have hone : (Feed.atOne k n).reader.nextShown (Feed.atOne k n).hides =
      .ok (⟨.num .integer, "1", k.loc, k.offset⟩, (Feed.behindOne k n).reader) := by
    cases n <;> rfl
  obtain ⟨hfront, hpast⟩ := Feed.tape_of_shown hone
  refine ⟨_, ⟨k.loc, .integer, "1"⟩, hfront, rfl, .term rfl TokenKind.noConfusion ?_⟩
  refine .mk (.constant hfront rfl) ?_
  rw [hpast]
  cases n with
  | zero => exact .stop (Feed.tape_of_shown (s := Feed.behindOne k 0) rfl).1 rfl
  | succ n => exact .stop (Feed.tape_of_shown (s := Feed.behindOne k (n + 1)) rfl).1 rfl

/-- The right operand of a plus ends before the next plus. -/
theorem readsExpression_one (levels : Nat) (k : Cursor) (n : Nat) :
    ∃ e, ReadsExpression (levels + 1) (Power.leftAssoc 70).right (Feed.atOne k n).tape e
      (Feed.behindOne k n).tape := by
  obtain ⟨t, c, hfront, -, hleading⟩ := readsLeading_one (ReadsExpression levels) k n
  refine ⟨.term t.loc (.mk (.constant c) []), .mk hfront hleading ?_⟩
  cases n with
  | zero => exact .stop (Feed.tape_of_shown (s := Feed.behindOne k 0) rfl).1 rfl nofun
  | succ n =>
    refine .stop (Feed.tape_of_shown (s := Feed.behindOne k (n + 1)) rfl).1 rfl fun p hp => ?_
    cases hp
    decide

/-- Every `+1` puts what stands before it a step below the whole. -/
theorem readsOperations_increments (levels : Nat) (loc : Location) {e : Expression} {j : Nat}
    (he : e.node.Climbs j) (hoperand : (Term.ofExpression e).operand.node.Climbs j) (k : Cursor)
    (n : Nat) :
    ∃ e' s' t, ReadsOperations (ReadsExpression (levels + 1)) 0 loc e (Feed.behindOne k n).tape e'
        s' ∧ s'.front = .ok t ∧ t.kind = .eof ∧ e'.node.Climbs (j + n) := by
  induction n generalizing e j k with
  | zero =>
    have hfront := (Feed.tape_of_shown (s := Feed.behindOne k 0) rfl).1
    exact ⟨e, _, _, .stop hfront rfl nofun, hfront, rfl, he⟩
  | succ n ih =>
    obtain ⟨hfront, hpast⟩ := Feed.tape_of_shown (s := Feed.behindOne k (n + 1)) rfl
    let k' := (k.advance ['1']).advance ['+']
    have hskip : (Feed.atOne k' n).skipLines = .ok (Feed.atOne k' n) := by cases n <;> rfl
    obtain ⟨⟨u, hbeyond⟩, hlines⟩ := Feed.tape_of_skipLines hskip
    obtain ⟨rhs, hrhs⟩ := readsExpression_one levels k' n
    let whole := Expression.binary loc .add (.ofExpression e) (.ofExpression rhs)
    have hwhole : whole.node.Climbs (j + 1) := Term.climbs_binary hoperand
    let op : Token := ⟨.plus, "+", (k.advance ['1']).loc, (k.advance ['1']).offset⟩
    have hjoined : joined? loc e op rhs = some whole := rfl
    obtain ⟨e', s', t, hoperations, hend, heof, hclimbs⟩ := ih hwhole hwhole k'
    refine ⟨e', s', t, ?_, hend, heof, by rwa [Nat.add_right_comm] at hclimbs⟩
    refine .operator hfront rfl rfl (Nat.zero_le _) (hpast ▸ hbeyond) ?_ hjoined hoperations
    rw [hpast]
    exact .full (by simp) (hlines.symm ▸ hrhs)

end Grammar

/-- **Trees of any height are accepted.** -/
theorem sumOfOnes_climbs (k : Nat) :
    ∃ p, parse (sumOfOnes k) = .ok p ∧ p.node.Climbs (k + 1) := by
  obtain ⟨t, c, hfront, hk, hleading⟩ :=
    Grammar.readsLeading_one (Grammar.ReadsExpression 63) .start k
  obtain ⟨e, s', u, hoperations, hend, heof, hclimbs⟩ :=
    Grammar.readsOperations_increments 62 t.loc (e := .term t.loc (.mk (.constant c) [])) (j := 0)
      ⟨_, rfl⟩ ⟨_, rfl⟩ .start k
  have he : Grammar.ReadsExpression maxNesting 0 (Feed.atOne .start k).tape e s' :=
    .mk hfront hleading hoperations
  have hstatements : Grammar.ReadsStatements (Grammar.ReadsExpression maxNesting) .eof
      (Feed.atOne .start k).tape [e] s' :=
    .more hfront (by rw [hk]; rfl) (by rw [hk]; exact TokenKind.noConfusion)
      (by rw [hk]; exact TokenKind.noConfusion) he hend (by rw [heof]; rfl)
      (.stop hend heof (by rw [heof]; rfl))
  refine ⟨⟨[e]⟩, ?_, ?_⟩
  · rw [parse, sumOfOnes, decodeSource_iff.mpr rfl]
    exact parseFeed_of_reads hstatements
  · rw [Nat.zero_add] at hclimbs
    exact hclimbs

/-- Levels of nesting alone do not bound the height. -/
theorem height_unbounded_of_sum :
    ∃ p n, parse (sumOfOnes 511) = .ok p ∧ p.node.follow? (List.replicate 512 0) = some n ∧
      ¬ (List.replicate 512 0).length + 1 ≤ 8 * maxNesting := by
  obtain ⟨p, hp, n, hn⟩ := sumOfOnes_climbs 511
  refine ⟨p, n, hp, hn, ?_⟩
  rw [List.length_replicate]
  decide

end RSource
