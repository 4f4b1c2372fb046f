import RSource.Proofs.Spans

/-!
# Operands by their tokens

The tokens that are part of a program are numbered from zero on, and each operand of the tree starts
at one of them.

* `Item.width` — the number of tokens that some items write.
* `Expression.operands`, `Term.operands`, `Operand.operands` and the like — the operands in a part
  of a tree, each with the number of its first token.
* `Program.operands` — the operands of a program.
-/

namespace RSource

namespace Item

/-- The number of tokens that some items write. -/
def width (is : List Item) : Nat := (codes is).length

@[simp] theorem width_nil : width [] = 0 := rfl

@[simp] theorem width_append (is js : List Item) : width (is ++ js) = width is + width js := by
  simp [width]

@[simp] theorem width_mark (label : Label) (loc : Location) (is : List Item) :
    width (.mark label loc :: is) = width is := rfl

@[simp] theorem width_token (kind : TokenKind) (text : String) (is : List Item) :
    width (.token kind text :: is) = width is + 1 := rfl

@[simp] theorem width_word (kind : TokenKind) (is : List Item) :
    width (word kind :: is) = width is + 1 := rfl

@[simp] theorem width_closeElement (is : List Item) :
    width (.closeElement :: is) = width is + 2 := rfl

@[simp] theorem width_lineBreak (is : List Item) : width (.lineBreak :: is) = width is := rfl

@[simp] theorem width_marks (loc : Location) (labels : List Label) :
    width (marks loc labels) = 0 := by
  induction labels with
  | nil => rfl
  | cons label labels ih => exact ih

@[simp] theorem width_formals (fs : List Formal) : width (formals fs) = 0 := by cases fs <;> rfl

@[simp] theorem width_blockBreak (es : List Expression) : width (blockBreak es) = 0 := by
  cases es <;> rfl

end Item

@[simp] theorem Identifier.width_items (i : Identifier) : Item.width i.items = 1 := rfl

@[simp] theorem Constant.width_items (c : Constant) : Item.width c.items = 1 := rfl

@[simp] theorem ArgName.width_items (n : ArgName) : Item.width n.items = 1 := by cases n <;> rfl

/-- The nodes around a call or subscript write nothing. -/
theorem Group.width_items (around : List Label) (g : Group) :
    Item.width (g.items around) = Item.width (g.items []) := by
  cases g
  simp [Group.items]

/-- So many tokens fit as the items write. -/
theorem Fits.length_eq {is : List Item} {ts : List Token} (h : Fits is ts) :
    ts.length = Item.width is := by
  rw [Item.width, h.codes, List.length_map]

open Item (width)

mutual

/-- The operands in an expression in front of which `n` tokens stand, each with the number of its
first token. -/
def Expression.operands (n : Nat) : Expression → List (Nat × Operand)
  | .term _ t => Term.operands n t
  | .unary _ _ t => Term.operands (n + 1) t
  | .binary _ _ l r => Term.operands n l ++ Term.operands (n + width l.items + 1) r
  | .assign _ l _ _ v => Term.operands n l ++ Expression.operands (n + width l.items + 1) v

/-- The operands in a term. -/
def Term.operands (n : Nat) : Term → List (Nat × Operand)
  | .mk o gs => Operand.operands n o ++ groupOperands (n + width o.items) gs

/-- An operand with those in it. An expression as an operand of another is none that is written. -/
def Operand.operands (n : Nat) : Operand → List (Nat × Operand)
  | .identifier i => [(n, .identifier i)]
  | .constant c => [(n, .constant c)]
  | .block loc es close => (n, .block loc es close) :: statementOperands (n + 1) es
  | .function loc fs e =>
      (n, .function loc fs e) :: (formalOperands (n + 2) fs ++
        Expression.operands (n + 2 + width (formalItems [] fs) + 1) e)
  | .ifThen loc c e =>
      (n, .ifThen loc c e) :: (Expression.operands (n + 2) c ++
        Expression.operands (n + 2 + width c.items + 1) e)
  | .ifElse loc c e o =>
      (n, .ifElse loc c e o) :: (Expression.operands (n + 2) c ++
        (Expression.operands (n + 2 + width c.items + 1) e ++
          Expression.operands (n + 2 + width c.items + 1 + width e.items + 1) o))
  | .forLoop loc i s e =>
      (n, .forLoop loc i s e) :: (Expression.operands (n + 2 + width i.items + 1) s ++
        Expression.operands (n + 2 + width i.items + 1 + width s.items + 1) e)
  | .whileLoop loc c e =>
      (n, .whileLoop loc c e) :: (Expression.operands (n + 2) c ++
        Expression.operands (n + 2 + width c.items + 1) e)
  | .repeatLoop loc e => (n, .repeatLoop loc e) :: Expression.operands (n + 1) e
  | .help loc e => (n, .help loc e) :: Expression.operands (n + 1) e
  | .paren e => (n, .paren e) :: Expression.operands (n + 1) e
  | .nested e => Expression.operands n e

/-- The operands in a call or subscript. -/
def Group.operands (n : Nat) : Group → List (Nat × Operand)
  | .mk _ _ slots => argumentOperands (n + 1) slots

/-- The operands in a slot. -/
def Argument.operands (n : Nat) : Argument → List (Nat × Operand)
  | .empty | .name _ => []
  | .value e => Expression.operands n e
  | .named i e => Expression.operands (n + width i.items + 1) e

/-- The operands in a parameter. -/
def Formal.operands (n : Nat) : Formal → List (Nat × Operand)
  | .required _ => []
  | .defaulted i e => Expression.operands (n + width i.items + 1) e

/-- The operands in some statements. -/
def statementOperands (n : Nat) : List Expression → List (Nat × Operand)
  | [] => []
  | e :: es => Expression.operands n e ++ statementOperands (n + width e.items) es

/-- The operands in some calls and subscripts. -/
def groupOperands (n : Nat) : List Group → List (Nat × Operand)
  | [] => []
  | g :: gs => Group.operands n g ++ groupOperands (n + width (g.items [])) gs

/-- The operands in some slots with commas between them. -/
def argumentOperands (n : Nat) : List Argument → List (Nat × Operand)
  | [] => []
  | a :: as => Argument.operands n a ++ argumentOperands (n + width a.items + 1) as

/-- The operands in some parameters with commas between them. -/
def formalOperands (n : Nat) : List Formal → List (Nat × Operand)
  | [] => []
  | f :: fs => Formal.operands n f ++ formalOperands (n + width f.items + 1) fs

end

/-- The operands of a program, each with the number of its first token. -/
def Program.operands (p : Program) : List (Nat × Operand) := statementOperands 0 p.statements

/-- An expression as an operand holds the same operands. -/
@[simp] theorem Term.operands_ofExpression (n : Nat) (e : Expression) :
    (Term.ofExpression e).operands n = e.operands n := by
  cases e <;> simp [Term.ofExpression, Term.operands, Operand.operands, groupOperands,
    Expression.operands]

/-- It writes as many tokens. -/
@[simp] theorem Term.width_ofExpression (e : Expression) :
    width (Term.ofExpression e).items = width e.items := by
  cases e <;> simp [Term.ofExpression, Term.items, Operand.items, groupItems, Expression.items]

end RSource
