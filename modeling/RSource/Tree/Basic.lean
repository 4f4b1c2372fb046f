import RSource.Operator
import RSource.Tree.Leaf

/-!
# Trees of programs

* `Expression`, `Term`, `Operand`, `Group`, `Argument`, `Formal` — the tree of an expression.
* `Program` — the statements of a source.
* `Expression.loc`, `Term.loc`, `Operand.loc` and the like — where each part starts. A place that
  follows from the parts is not stored.
* `Term.ofExpression` — an expression as an operand: one without an operator is its own term.
* `Group.content`, `Group.arity` — what stands between the brackets of a call or subscript.
-/

namespace RSource

/-- The brackets of a call, a subscript and an element subscript. -/
inductive Brackets where
  | call
  | index
  | element
  deriving DecidableEq, Repr

/-- The brackets that a token opens behind an operand. -/
def Brackets.ofKind? : TokenKind → Option Brackets
  | .lparen => some call
  | .lbracket => some index
  | .lbracket2 => some element
  | _ => none

/-- The token that closes the brackets. Those of an element subscript close with two of it. -/
def Brackets.closing : Brackets → TokenKind
  | call => .rparen
  | index | element => .rbracket

mutual

/-- One evaluable unit: at most one operator with its operands. -/
inductive Expression where
  | term (loc : Location) (t : Term)
  | unary (loc : Location) (op : UnaryOp) (operand : Term)
  | binary (loc : Location) (op : BinaryOp) (lhs rhs : Term)
  | assign (loc : Location) (lhs : Term) (opLoc : Location) (op : AssignOp) (value : Expression)

/-- An operand with the calls and subscripts behind it, the innermost first. -/
inductive Term where
  | mk (operand : Operand) (groups : List Group)

/-- What an operator or a call applies to. -/
inductive Operand where
  | identifier (i : Identifier)
  | constant (c : Constant)
  | block (loc : Location) (statements : List Expression) (closing : Location)
  | function (loc : Location) (formals : List Formal) (body : Expression)
  | ifThen (loc : Location) (cond body : Expression)
  | ifElse (loc : Location) (cond body otherwise : Expression)
  | forLoop (loc : Location) (var : Identifier) (seq body : Expression)
  | whileLoop (loc : Location) (cond body : Expression)
  | repeatLoop (loc : Location) (body : Expression)
  | help (loc : Location) (target : Expression)
  /-- An expression in parentheses. -/
  | paren (inner : Expression)
  /-- An expression with an operator, as operand of another. -/
  | nested (inner : Expression)

/-- One pair of brackets behind an operand. Its place is that of the first token inside. -/
inductive Group where
  | mk (loc : Location) (kind : Brackets) (slots : List Argument)

/-- What stands between two commas. -/
inductive Argument where
  | empty
  | value (e : Expression)
  /-- A name and an equals sign without a value. -/
  | name (n : ArgName)
  | named (n : ArgName) (e : Expression)

/-- A parameter of a function, with its default if there is one. -/
inductive Formal where
  | required (name : Identifier)
  | defaulted (name : Identifier) (default : Expression)

end

/-- The place of the first token of an expression. -/
def Expression.loc : Expression → Location
  | term loc _ | unary loc _ _ | binary loc _ _ _ | assign loc _ _ _ _ => loc

namespace Operand

/-- The place of an operand. That of an expression in parentheses is the expression's. -/
def loc : Operand → Location
  | identifier i => i.loc
  | constant c => c.loc
  | block loc _ _ | function loc _ _ | ifThen loc _ _ | ifElse loc _ _ _ | forLoop loc _ _ _
  | whileLoop loc _ _ | repeatLoop loc _ | help loc _ => loc
  | paren e | nested e => e.loc

end Operand

namespace Term

def operand : Term → Operand
  | mk o _ => o

def groups : Term → List Group
  | mk _ ss => ss

/-- The place of a term is that of its operand. -/
def loc (t : Term) : Location := t.operand.loc

/-- An expression as an operand: without an operator it is its own term. -/
def ofExpression : Expression → Term
  | .term _ t => t
  | e => mk (.nested e) []

end Term

namespace Group

def loc : Group → Location
  | mk l _ _ => l

def kind : Group → Brackets
  | mk _ k _ => k

def slots : Group → List Argument
  | mk _ _ slots => slots

/-- What the brackets hold: nothing, one expression, or else a list of arguments. -/
inductive Content where
  | empty
  | expression (e : Expression)
  | arguments (slots : List Argument)

/-- What the brackets of a group hold. -/
def content (s : Group) : Content :=
  match s.slots with
  | [] => .empty
  | [.value e] => .expression e
  | slots => .arguments slots

/-- The number of slots, those left empty included. -/
def arity (s : Group) : Nat := s.slots.length

end Group

namespace Formal

def name : Formal → Identifier
  | required i | defaulted i _ => i

def default? : Formal → Option Expression
  | required _ => none
  | defaulted _ e => some e

end Formal

/-- The place of the first of some statements, or `default` when there are none. -/
def statementsLoc (statements : List Expression) (default : Location) : Location :=
  match statements with
  | [] => default
  | e :: _ => e.loc

/-- The statements of a source. -/
structure Program where
  statements : List Expression

/-- The place of the first statement; the start of the source when there is none. -/
def Program.loc (p : Program) : Location := statementsLoc p.statements .start

end RSource
