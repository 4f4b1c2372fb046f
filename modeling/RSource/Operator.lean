import RSource.Token.Basic

/-!
# Operators

* `AssignOp`, `BinaryOp`, `UnaryOp` — the operators of the tree, each with its `spelling` and
  with the token that writes it (`ofKind?`, `ofToken?`).
* `AssignOp.direction` — which operand of an assignment receives the value.
* `Power` — how tightly an operator holds its operands, and the table of all of them.
-/

namespace RSource

/-- The assignment operators. -/
inductive AssignOp where
  | left
  | superLeft
  | right
  | superRight
  | equals
  | colon
  deriving DecidableEq, Repr

/-- Which operand receives the value. -/
inductive Direction where
  | rightToLeft
  | leftToRight
  deriving DecidableEq, Repr

namespace AssignOp

/-- The assignment operator that a token writes. -/
def ofKind? : TokenKind → Option AssignOp
  | .leftAssign => some left
  | .superLeftAssign => some superLeft
  | .rightAssign => some right
  | .superRightAssign => some superRight
  | .eqAssign => some equals
  | .colonAssign => some colon
  | _ => none

/-- An arrow to the right assigns to the right operand. -/
def direction : AssignOp → Direction
  | right | superRight => .leftToRight
  | left | superLeft | equals | colon => .rightToLeft

def spelling : AssignOp → String
  | left => "<-"
  | superLeft => "<<-"
  | right => "->"
  | superRight => "->>"
  | equals => "="
  | colon => ":="

end AssignOp

/-- The operators between two operands, assignment apart. -/
inductive BinaryOp where
  | formula
  | or
  | orOr
  | and
  | andAnd
  | eq
  | notEq
  | lt
  | ltEq
  | gt
  | gtEq
  | add
  | sub
  | mul
  | div
  | modulo
  | intDiv
  | matMul
  | outer
  | kronecker
  | elementOf
  /-- Any other operator between percent signs, with its full spelling. -/
  | special (spelling : String)
  | range
  | pow
  | component
  | slot
  deriving DecidableEq, Repr

namespace BinaryOp

/-- The operator between percent signs with the given spelling. -/
def ofSpecial (lexeme : String) : BinaryOp :=
  if lexeme = "%%" then modulo
  else if lexeme = "%/%" then intDiv
  else if lexeme = "%*%" then matMul
  else if lexeme = "%o%" then outer
  else if lexeme = "%x%" then kronecker
  else if lexeme = "%in%" then elementOf
  else special lexeme

/-- The operator that a token of this kind and lexeme writes. -/
def ofToken? (kind : TokenKind) (lexeme : String) : Option BinaryOp :=
  match kind with
  | .tilde => some formula
  | .or => some or
  | .orOr => some orOr
  | .and => some and
  | .andAnd => some andAnd
  | .eq => some eq
  | .notEq => some notEq
  | .lt => some lt
  | .ltEq => some ltEq
  | .gt => some gt
  | .gtEq => some gtEq
  | .plus => some add
  | .minus => some sub
  | .star => some mul
  | .slash => some div
  | .special => some (ofSpecial lexeme)
  | .colon => some range
  | .caret => some pow
  | .dollar => some component
  | .atSign => some slot
  | _ => none

/-- The spelling kept in the tree: a power is always a caret. -/
def spelling : BinaryOp → String
  | formula => "~"
  | or => "|"
  | orOr => "||"
  | and => "&"
  | andAnd => "&&"
  | eq => "=="
  | notEq => "!="
  | lt => "<"
  | ltEq => "<="
  | gt => ">"
  | gtEq => ">="
  | add => "+"
  | sub => "-"
  | mul => "*"
  | div => "/"
  | modulo => "%%"
  | intDiv => "%/%"
  | matMul => "%*%"
  | outer => "%o%"
  | kronecker => "%x%"
  | elementOf => "%in%"
  | special s => s
  | range => ":"
  | pow => "^"
  | component => "$"
  | slot => "@"

end BinaryOp

/-- The operators before an operand. -/
inductive UnaryOp where
  | not
  | minus
  | plus
  | formula
  deriving DecidableEq, Repr

namespace UnaryOp

/-- The operator that a token writes before an operand. -/
def ofKind? : TokenKind → Option UnaryOp
  | .not => some not
  | .minus => some minus
  | .plus => some plus
  | .tilde => some formula
  | _ => none

def spelling : UnaryOp → String
  | not => "!"
  | minus => "-"
  | plus => "+"
  | formula => "~"

end UnaryOp

/-- How tightly an operator between two operands holds them: an operand goes to the neighbour
with the higher power on its side, and the higher side decides the associativity. -/
structure Power where
  left : Nat
  right : Nat
  deriving DecidableEq, Repr

namespace Power

/-- Operators of the level group from the left. -/
def leftAssoc (level : Nat) : Power := ⟨level, level + 1⟩

/-- Operators of the level group from the right. -/
def rightAssoc (level : Nat) : Power := ⟨level + 1, level⟩

/-- The powers of a token that stands between two operands, from loosest to tightest. -/
def ofKind? : TokenKind → Option Power
  | .leftAssign | .superLeftAssign | .eqAssign | .colonAssign => some (rightAssoc 10)
  | .rightAssign | .superRightAssign => some (leftAssoc 15)
  | .tilde => some (leftAssoc 20)
  | .or | .orOr => some (leftAssoc 30)
  | .and | .andAnd => some (leftAssoc 40)
  | .eq | .notEq | .lt | .ltEq | .gt | .gtEq => some (leftAssoc 60)
  | .plus | .minus => some (leftAssoc 70)
  | .star | .slash => some (leftAssoc 80)
  | .special => some (leftAssoc 90)
  | .colon => some (leftAssoc 100)
  | .caret => some (rightAssoc 120)
  | .dollar | .atSign => some (leftAssoc 130)
  | _ => none

/-- The least left power an operator may have inside the target of `?`. -/
def helpTarget : Nat := 10

end Power

/-- The least left power an operator may have inside the operand of a prefix operator: `!`
stands between `&` and the comparisons, a sign between `:` and `^`. -/
def UnaryOp.power : UnaryOp → Nat
  | formula => 21
  | not => 51
  | minus | plus => 111

end RSource
