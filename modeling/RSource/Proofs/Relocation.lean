import RSource.Proofs.Erasure

/-!
# Trees and errors at other places

* `Expression.relocate`, `Term.relocate`, `Operand.relocate` and the like, `Program.relocate` — a
  tree with each place sent to another one.
* `Error.relocate`, `relocateOutcome` — so for an error, and for what parsing a source comes to.
* `Expression.relocate_id`, `Expression.relocate_toStart` — nothing moves; all places are erased.
* `Twin`, `SameEnd` — two tokens that differ in their places alone, which two maps send to one; so
  for the ends of two sources.
* `Twin.identifier`, `Twin.constant`, `Twin.argName`, `joined_relocate` — twins are read as leaves
  and operators that differ in their places alone.
-/

namespace RSource

/-! ## Moving the places -/

def Identifier.relocate (f : Location → Location) (i : Identifier) : Identifier :=
  { i with loc := f i.loc }

def Constant.relocate (f : Location → Location) (c : Constant) : Constant :=
  { c with loc := f c.loc }

def ArgName.relocate (f : Location → Location) : ArgName → ArgName
  | identifier i => identifier (i.relocate f)
  | constant c => constant (c.relocate f)

section Tree

variable (f : Location → Location)

mutual

/-- An expression with each of its places sent to another one. -/
def Expression.relocate : Expression → Expression
  | .term loc t => .term (f loc) (Term.relocate t)
  | .unary loc op t => .unary (f loc) op (Term.relocate t)
  | .binary loc op l r => .binary (f loc) op (Term.relocate l) (Term.relocate r)
  | .assign loc l opLoc op v =>
      .assign (f loc) (Term.relocate l) (f opLoc) op (Expression.relocate v)

def Term.relocate : Term → Term
  | .mk o gs => .mk (Operand.relocate o) (relocateGroups gs)

def Operand.relocate : Operand → Operand
  | .identifier i => .identifier (i.relocate f)
  | .constant c => .constant (c.relocate f)
  | .block loc es closing => .block (f loc) (relocateExpressions es) (f closing)
  | .function loc fs e => .function (f loc) (relocateFormals fs) (Expression.relocate e)
  | .ifThen loc c e => .ifThen (f loc) (Expression.relocate c) (Expression.relocate e)
  | .ifElse loc c e o =>
      .ifElse (f loc) (Expression.relocate c) (Expression.relocate e) (Expression.relocate o)
  | .forLoop loc i s e =>
      .forLoop (f loc) (i.relocate f) (Expression.relocate s) (Expression.relocate e)
  | .whileLoop loc c e => .whileLoop (f loc) (Expression.relocate c) (Expression.relocate e)
  | .repeatLoop loc e => .repeatLoop (f loc) (Expression.relocate e)
  | .help loc e => .help (f loc) (Expression.relocate e)
  | .paren e => .paren (Expression.relocate e)
  | .nested e => .nested (Expression.relocate e)

def Group.relocate : Group → Group
  | .mk loc kind slots => .mk (f loc) kind (relocateArguments slots)

def Argument.relocate : Argument → Argument
  | .empty => .empty
  | .value e => .value (Expression.relocate e)
  | .name n => .name (n.relocate f)
  | .named n e => .named (n.relocate f) (Expression.relocate e)

def Formal.relocate : Formal → Formal
  | .required i => .required (i.relocate f)
  | .defaulted i e => .defaulted (i.relocate f) (Expression.relocate e)

def relocateExpressions : List Expression → List Expression
  | [] => []
  | e :: es => Expression.relocate e :: relocateExpressions es

def relocateGroups : List Group → List Group
  | [] => []
  | g :: gs => Group.relocate g :: relocateGroups gs

def relocateArguments : List Argument → List Argument
  | [] => []
  | a :: as => Argument.relocate a :: relocateArguments as

def relocateFormals : List Formal → List Formal
  | [] => []
  | p :: ps => Formal.relocate p :: relocateFormals ps

end

end Tree

/-- A program with each of its places sent to another one. -/
def Program.relocate (f : Location → Location) (p : Program) : Program :=
  ⟨relocateExpressions f p.statements⟩

def LexError.relocate (f : Location → Location) (e : LexError) : LexError :=
  { e with loc := f e.loc }

def SyntaxError.relocate (f : Location → Location) (e : SyntaxError) : SyntaxError :=
  { e with loc := f e.loc }

/-- An error with its place sent to another one. -/
def Error.relocate (f : Location → Location) : Error → Error
  | lexical e => lexical (e.relocate f)
  | unexpected e => unexpected (e.relocate f)
  | tooDeep loc => tooDeep (f loc)

/-- What parsing a source comes to, with each place sent to another one. -/
def relocateOutcome (f : Location → Location) : Except Error Program → Except Error Program
  | .ok p => .ok (p.relocate f)
  | .error e => .error (e.relocate f)

@[simp] theorem Term.relocate_ofExpression (f : Location → Location) (e : Expression) :
    (Term.ofExpression e).relocate f = Term.ofExpression (e.relocate f) := by
  cases e <;> rfl

/-! ## Nothing moves -/

@[simp] theorem Identifier.relocate_id (i : Identifier) : i.relocate id = i := rfl

@[simp] theorem Constant.relocate_id (c : Constant) : c.relocate id = c := rfl

@[simp] theorem ArgName.relocate_id (n : ArgName) : n.relocate id = n := by cases n <;> rfl

mutual

theorem Expression.relocate_id : ∀ e : Expression, e.relocate id = e
  | .term loc t => by simp [Expression.relocate, Term.relocate_id t]
  | .unary loc op t => by simp [Expression.relocate, Term.relocate_id t]
  | .binary loc op l r => by simp [Expression.relocate, Term.relocate_id l, Term.relocate_id r]
  | .assign loc l opLoc op v => by
      simp [Expression.relocate, Term.relocate_id l, Expression.relocate_id v]

theorem Term.relocate_id : ∀ t : Term, t.relocate id = t
  | .mk o gs => by simp [Term.relocate, Operand.relocate_id o, relocateGroups_id gs]

theorem Operand.relocate_id : ∀ o : Operand, o.relocate id = o
  | .identifier i => rfl
  | .constant c => rfl
  | .block loc es closing => by simp [Operand.relocate, relocateExpressions_id es]
  | .function loc fs e => by
      simp [Operand.relocate, relocateFormals_id fs, Expression.relocate_id e]
  | .ifThen loc c e => by
      simp [Operand.relocate, Expression.relocate_id c, Expression.relocate_id e]
  | .ifElse loc c e o => by
      simp [Operand.relocate, Expression.relocate_id c, Expression.relocate_id e,
        Expression.relocate_id o]
  | .forLoop loc i s e => by
      simp [Operand.relocate, Expression.relocate_id s, Expression.relocate_id e]
  | .whileLoop loc c e => by
      simp [Operand.relocate, Expression.relocate_id c, Expression.relocate_id e]
  | .repeatLoop loc e => by simp [Operand.relocate, Expression.relocate_id e]
  | .help loc e => by simp [Operand.relocate, Expression.relocate_id e]
  | .paren e => by simp [Operand.relocate, Expression.relocate_id e]
  | .nested e => by simp [Operand.relocate, Expression.relocate_id e]

theorem Group.relocate_id : ∀ g : Group, g.relocate id = g
  | .mk loc kind slots => by simp [Group.relocate, relocateArguments_id slots]

theorem Argument.relocate_id : ∀ a : Argument, a.relocate id = a
  | .empty => rfl
  | .value e => by simp [Argument.relocate, Expression.relocate_id e]
  | .name n => by simp [Argument.relocate]
  | .named n e => by simp [Argument.relocate, Expression.relocate_id e]

theorem Formal.relocate_id : ∀ p : Formal, p.relocate id = p
  | .required i => rfl
  | .defaulted i e => by simp [Formal.relocate, Expression.relocate_id e]

theorem relocateExpressions_id : ∀ es : List Expression, relocateExpressions id es = es
  | [] => rfl
  | e :: es => by
      rw [relocateExpressions, Expression.relocate_id e, relocateExpressions_id es]

theorem relocateGroups_id : ∀ gs : List Group, relocateGroups id gs = gs
  | [] => rfl
  | g :: gs => by rw [relocateGroups, Group.relocate_id g, relocateGroups_id gs]

theorem relocateArguments_id : ∀ as : List Argument, relocateArguments id as = as
  | [] => rfl
  | a :: as => by rw [relocateArguments, Argument.relocate_id a, relocateArguments_id as]

theorem relocateFormals_id : ∀ ps : List Formal, relocateFormals id ps = ps
  | [] => rfl
  | p :: ps => by rw [relocateFormals, Formal.relocate_id p, relocateFormals_id ps]

end

theorem Error.relocate_id (e : Error) : e.relocate id = e := by cases e <;> rfl

/-! ## All places are erased -/

/-- Sends every place to the first of all. -/
def Location.toStart (_ : Location) : Location := .start

@[simp] theorem ArgName.relocate_toStart (n : ArgName) : n.relocate Location.toStart = n.erase := by
  cases n <;> rfl

mutual

theorem Expression.relocate_toStart : ∀ e : Expression, e.relocate Location.toStart = e.erase
  | .term loc t => by
      simp [Expression.relocate, Expression.erase, Term.relocate_toStart t, Location.toStart]
  | .unary loc op t => by
      simp [Expression.relocate, Expression.erase, Term.relocate_toStart t, Location.toStart]
  | .binary loc op l r => by
      simp [Expression.relocate, Expression.erase, Term.relocate_toStart l,
        Term.relocate_toStart r, Location.toStart]
  | .assign loc l opLoc op v => by
      simp [Expression.relocate, Expression.erase, Term.relocate_toStart l,
        Expression.relocate_toStart v, Location.toStart]

theorem Term.relocate_toStart : ∀ t : Term, t.relocate Location.toStart = t.erase
  | .mk o gs => by
      simp [Term.relocate, Term.erase, Operand.relocate_toStart o, relocateGroups_toStart gs]

theorem Operand.relocate_toStart : ∀ o : Operand, o.relocate Location.toStart = o.erase
  | .identifier i => rfl
  | .constant c => rfl
  | .block loc es closing => by
      simp [Operand.relocate, Operand.erase, relocateExpressions_toStart es, Location.toStart]
  | .function loc fs e => by
      simp [Operand.relocate, Operand.erase, relocateFormals_toStart fs,
        Expression.relocate_toStart e, Location.toStart]
  | .ifThen loc c e => by
      simp [Operand.relocate, Operand.erase, Expression.relocate_toStart c,
        Expression.relocate_toStart e, Location.toStart]
  | .ifElse loc c e o => by
      simp [Operand.relocate, Operand.erase, Expression.relocate_toStart c,
        Expression.relocate_toStart e, Expression.relocate_toStart o, Location.toStart]
  | .forLoop loc i s e => by
      simp [Operand.relocate, Operand.erase, Identifier.relocate, Identifier.erase,
        Expression.relocate_toStart s, Expression.relocate_toStart e, Location.toStart]
  | .whileLoop loc c e => by
      simp [Operand.relocate, Operand.erase, Expression.relocate_toStart c,
        Expression.relocate_toStart e, Location.toStart]
  | .repeatLoop loc e => by
      simp [Operand.relocate, Operand.erase, Expression.relocate_toStart e, Location.toStart]
  | .help loc e => by
      simp [Operand.relocate, Operand.erase, Expression.relocate_toStart e, Location.toStart]
  | .paren e => by simp [Operand.relocate, Operand.erase, Expression.relocate_toStart e]
  | .nested e => by simp [Operand.relocate, Operand.erase, Expression.relocate_toStart e]

theorem Group.relocate_toStart : ∀ g : Group, g.relocate Location.toStart = g.erase
  | .mk loc kind slots => by
      simp [Group.relocate, Group.erase, relocateArguments_toStart slots, Location.toStart]

theorem Argument.relocate_toStart : ∀ a : Argument, a.relocate Location.toStart = a.erase
  | .empty => rfl
  | .value e => by simp [Argument.relocate, Argument.erase, Expression.relocate_toStart e]
  | .name n => by simp [Argument.relocate, Argument.erase]
  | .named n e => by simp [Argument.relocate, Argument.erase, Expression.relocate_toStart e]

theorem Formal.relocate_toStart : ∀ p : Formal, p.relocate Location.toStart = p.erase
  | .required i => rfl
  | .defaulted i e => by
      simp [Formal.relocate, Formal.erase, Identifier.relocate, Identifier.erase,
        Expression.relocate_toStart e, Location.toStart]

theorem relocateExpressions_toStart :
    ∀ es : List Expression, relocateExpressions Location.toStart es = eraseExpressions es
  | [] => rfl
  | e :: es => by
      rw [relocateExpressions, eraseExpressions, Expression.relocate_toStart e,
        relocateExpressions_toStart es]

theorem relocateGroups_toStart :
    ∀ gs : List Group, relocateGroups Location.toStart gs = eraseGroups gs
  | [] => rfl
  | g :: gs => by
      rw [relocateGroups, eraseGroups, Group.relocate_toStart g, relocateGroups_toStart gs]

theorem relocateArguments_toStart :
    ∀ as : List Argument, relocateArguments Location.toStart as = eraseArguments as
  | [] => rfl
  | a :: as => by
      rw [relocateArguments, eraseArguments, Argument.relocate_toStart a,
        relocateArguments_toStart as]

theorem relocateFormals_toStart :
    ∀ ps : List Formal, relocateFormals Location.toStart ps = eraseFormals ps
  | [] => rfl
  | p :: ps => by
      rw [relocateFormals, eraseFormals, Formal.relocate_toStart p, relocateFormals_toStart ps]

end

/-- A program whose places all move to the first has none left. -/
theorem Program.relocate_toStart (p : Program) : p.relocate Location.toStart = p.erase :=
  congrArg Program.mk (relocateExpressions_toStart p.statements)

/-! ## Twins -/

/-- Two tokens that differ in their places alone; `f` and `g` send these to one place. -/
structure Twin (f g : Location → Location) (t u : Token) : Prop where
  kind : u.kind = t.kind
  lexeme : u.lexeme = t.lexeme
  loc : f t.loc = g u.loc

namespace Twin

variable {f g : Location → Location} {t u : Token}

theorem symm (h : Twin f g t u) : Twin g f u t :=
  ⟨h.kind.symm, h.lexeme.symm, h.loc.symm⟩

theorem identifier (h : Twin f g t u) :
    (Identifier.ofToken t).relocate f = (Identifier.ofToken u).relocate g := by
  unfold Identifier.ofToken
  rw [h.kind, h.lexeme]
  split <;> simp [Identifier.relocate, h.loc]

theorem constant (h : Twin f g t u) :
    (Constant.ofToken? t).map (·.relocate f) = (Constant.ofToken? u).map (·.relocate g) := by
  unfold Constant.ofToken?
  rw [h.kind, h.lexeme]
  split <;> simp [Constant.relocate, h.loc]

theorem argName (h : Twin f g t u) :
    (ArgName.ofToken? t).map (·.relocate f) = (ArgName.ofToken? u).map (·.relocate g) := by
  have hconstant := h.constant
  unfold ArgName.ofToken?
  rw [h.kind]
  split
  · simp [ArgName.relocate, h.identifier]
  · simp [ArgName.relocate, h.identifier]
  · simpa [Option.map_map, Function.comp_def, ArgName.relocate] using
      congrArg (Option.map ArgName.constant) hconstant
  · simpa [Option.map_map, Function.comp_def, ArgName.relocate] using
      congrArg (Option.map ArgName.constant) hconstant
  · rfl

/-- A token that is refused is refused like its twin. -/
theorem unexpected (h : Twin f g t u) (expected : List Continuation) :
    (Error.unexpected (.ofToken t expected)).relocate f =
      (Error.unexpected (.ofToken u expected)).relocate g := by
  simp [Error.relocate, SyntaxError.relocate, SyntaxError.ofToken, h.kind, h.lexeme, h.loc]

end Twin

/-- Two ends of input, or two faults, which two maps send to one. -/
inductive SameEnd (f g : Location → Location) :
    Except LexError Token → Except LexError Token → Prop where
  | eof {t u : Token} (h : Twin f g t u) : SameEnd f g (.ok t) (.ok u)
  | fault {e e' : LexError} (h : e.relocate f = e'.relocate g) : SameEnd f g (.error e) (.error e')

theorem SameEnd.symm {f g : Location → Location} {e e' : Except LexError Token}
    (h : SameEnd f g e e') : SameEnd g f e' e := by
  cases h with
  | eof h => exact .eof h.symm
  | fault h => exact .fault h.symm

/-- Operands that differ in their places alone are joined to such a whole. -/
theorem Grammar.joined_relocate {f g : Location → Location} {t u : Token} {loc loc' : Location}
    {lhs lhs' rhs rhs' : Expression} (h : Twin f g t u) (hloc : f loc = g loc')
    (hl : lhs.relocate f = lhs'.relocate g) (hr : rhs.relocate f = rhs'.relocate g) :
    (joined? loc lhs t rhs).map (·.relocate f) = (joined? loc' lhs' u rhs').map (·.relocate g) := by
  unfold joined?
  rw [h.kind, h.lexeme]
  split
  · simp [Expression.relocate, hloc, h.loc, hl, hr]
  · split
    · simp [Expression.relocate, hloc, hl, hr]
    · rfl

end RSource
