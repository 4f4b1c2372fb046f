import RSource.Grammar.Statement

/-!
# Expressions

* `Grammar.operand`, `Grammar.term` — what an operator applies to, without and with the calls and
  subscripts behind it.
* `Grammar.leading`, `Grammar.rightOperand` — what stands before the first operator that takes two
  operands, and behind each of them.
* `Grammar.operations` — the operators behind a first operand, as long as they hold it tightly
  enough.
* `Grammar.expression` — an expression; each level of nesting uses up one of the levels allowed.
-/

namespace RSource.Grammar

open Parse

/-- An operand without anything behind it. -/
def operand (expr : ExprParse) (bound : Nat) : Parse Operand := do
  let t ← look
  match Constant.ofToken? t with
  | some c =>
      drop
      return .constant c
  | none =>
      match t.kind with
      | .ident | .quotedIdent | .nextWord | .breakWord =>
          drop
          return .identifier (.ofToken t)
      | .lparen => paren expr
      | .lbrace => block expr bound
      | .functionWord => function expr bound
      | .ifWord => ifForm expr
      | .forWord => forLoop expr
      | .whileWord => whileLoop expr
      | .repeatWord => repeatLoop expr
      | _ => .reject [.expression]

/-- An operand with the calls and subscripts behind it. -/
def term (expr : ExprParse) (bound : Nat) : Parse Term := do
  let o ← operand expr bound
  return .mk o (← groups expr bound bound)

/-- What stands before the first operator that takes two operands: an operator with its operand,
a request for help, or a term. -/
def leading (expr : ExprParse) (bound : Nat) (start : Token) : Parse Expression :=
  match UnaryOp.ofKind? start.kind with
  | some op => do
      drop
      dropLines
      return .unary start.loc op (.ofExpression (← expr op.power))
  | none =>
      if start.kind = .question then do
        drop
        dropLines
        return .term start.loc (.mk (.help start.loc (← expr Power.helpTarget)) [])
      else do
        return .term start.loc (← term expr bound)

/-- The operand to the right of an operator. That of `$` and `@` is a bare operand, which leaves
the brackets behind it to the whole. -/
def rightOperand (expr : ExprParse) (bound : Nat) (op : TokenKind) (power : Power) :
    Parse Expression := do
  if op = .dollar ∨ op = .atSign then
    let t ← look
    return .term t.loc (.mk (← operand expr bound) [])
  else expr power.right

/-- Both operands joined by the operator that the token writes. -/
def joined? (loc : Location) (lhs : Expression) (op : Token) (rhs : Expression) :
    Option Expression :=
  match AssignOp.ofKind? op.kind with
  | some a => some (.assign loc (.ofExpression lhs) op.loc a rhs)
  | none =>
      match BinaryOp.ofToken? op.kind op.lexeme with
      | some b => some (.binary loc b (.ofExpression lhs) (.ofExpression rhs))
      | none => none

/-- What stands behind the operands read so far: calls and subscripts of a `$` or `@` before
them, and operators with at least the given left power. -/
def operations (expr : ExprParse) (bound minPower : Nat) (loc : Location) :
    Nat → Expression → Parse Expression
  | 0, _ => outOfBound
  | n + 1, lhs => do
      let op ← look
      if (Brackets.ofKind? op.kind).isSome then
        let gs ← groups expr bound bound
        operations expr bound minPower loc n (.term loc (.mk (.nested lhs) gs))
      else
        match Power.ofKind? op.kind with
        | none => return lhs
        | some power =>
            if power.left < minPower then return lhs
            else
              drop
              dropLines
              let rhs ← rightOperand expr bound op.kind power
              match joined? loc lhs op rhs with
              | none => .reject [.statementEnd]
              | some e => operations expr bound minPower loc n e

/-- An expression whose parts are read by `expr`. -/
def level (expr : ExprParse) (bound minPower : Nat) : Parse Expression := do
  let start ← look
  let lhs ← leading expr bound start
  operations expr bound minPower start.loc bound lhs

/-- An expression in which at most `levels` expressions, itself included, are nested. -/
def expression (bound : Nat) : Nat → ExprParse
  | 0, _ => .tooDeep
  | levels + 1, minPower => level (expression bound levels) bound minPower

end RSource.Grammar
