import RSource.Grammar.Bracketed

/-!
# Statements, blocks and control forms

* `Grammar.startsExpression` — the tokens an expression may begin with.
* `Grammar.statements` — statements up to a closing token; a statement that another one follows
  directly needs nothing between them.
* `Grammar.block`, `Grammar.function`, `Grammar.ifForm`, `Grammar.forLoop`, `Grammar.whileLoop`,
  `Grammar.repeatLoop`, `Grammar.paren` — the operands that hold statements or expressions.
-/

namespace RSource.Grammar

open Parse

/-- The tokens an expression may begin with, and so a statement right behind another. -/
def startsExpression : TokenKind → Bool
  | .ident | .quotedIdent | .num _ | .str | .trueWord | .falseWord | .nullWord | .infWord
  | .nanWord | .naWord | .ifWord | .repeatWord | .whileWord | .functionWord | .forWord
  | .nextWord | .breakWord | .lparen | .lbrace | .minus | .plus | .not | .tilde
  | .question => true
  | _ => false

/-- Whether a token separates statements. -/
def separates (k : TokenKind) : Bool := k == .newline || k == .semicolon

/-- What may follow a statement: the closing token is named unless it is the end of the input. -/
def afterStatement (close : TokenKind) : List Continuation :=
  if close = .eof then [.statementEnd] else [.statementEnd, .token close]

/-- Statements up to the closing token, which is left. -/
def statements (expr : ExprParse) (close : TokenKind) : Nat → Parse (List Expression)
  | 0 => outOfBound
  | bound + 1 => do
      let t ← look
      if separates t.kind then
        drop
        statements expr close bound
      else if t.kind = close then return []
      else if t.kind = .eof then .reject [.token close]
      else
        let first ← expr 0
        let next ← look
        if separates next.kind || next.kind == .eof || next.kind == close
            || startsExpression next.kind then
          return first :: (← statements expr close bound)
        else .reject (afterStatement close)

/-- An expression in parentheses, where line feeds are ignored. -/
def parenthesized (expr : ExprParse) : Parse Expression := do
  let _ ← demand .lparen
  opened .free
  let e ← expr 0
  let _ ← demand .rparen
  closed
  return e

/-- Statements in braces, where line feeds separate them. -/
def block (expr : ExprParse) (bound : Nat) : Parse Operand := do
  let brace ← demand .lbrace
  opened .lined
  let body ← statements expr .rbrace bound
  let close ← demand .rbrace
  closed
  return .block brace.loc body close.loc

/-- The expression that a header or a word is about, behind any line feeds. -/
def body (expr : ExprParse) : Parse Expression := do
  dropLines
  expr 0

/-- A function: its parameters in parentheses and its body. -/
def function (expr : ExprParse) (bound : Nat) : Parse Operand := do
  let word ← demand .functionWord
  let _ ← demand .lparen
  opened .free
  let params ← formals expr bound
  let _ ← demand .rparen
  closed
  return .function word.loc params (← body expr)

/-- Whether an `else` belongs to the form just read. Outside all brackets a line feed ends the
statement before it. -/
def elseFollows : Parse Bool := do
  if (← bracketed) then return (← kindBeyondLines) == .elseWord
  else return (← look).kind == .elseWord

/-- A condition and the branches it decides between. -/
def ifForm (expr : ExprParse) : Parse Operand := do
  let word ← demand .ifWord
  let cond ← parenthesized expr
  let thenBranch ← body expr
  if (← elseFollows) then
    dropLines
    let _ ← demand .elseWord
    return .ifElse word.loc cond thenBranch (← body expr)
  else return .ifThen word.loc cond thenBranch

/-- A loop over a sequence. -/
def forLoop (expr : ExprParse) : Parse Operand := do
  let word ← demand .forWord
  let _ ← demand .lparen
  opened .free
  let var ← name
  let _ ← demand .inWord
  let seq ← expr 0
  let _ ← demand .rparen
  closed
  return .forLoop word.loc var seq (← body expr)

/-- A loop under a condition. -/
def whileLoop (expr : ExprParse) : Parse Operand := do
  let word ← demand .whileWord
  let cond ← parenthesized expr
  return .whileLoop word.loc cond (← body expr)

/-- A loop without a condition. -/
def repeatLoop (expr : ExprParse) : Parse Operand := do
  let word ← demand .repeatWord
  return .repeatLoop word.loc (← body expr)

/-- An expression in parentheses as an operand. -/
def paren (expr : ExprParse) : Parse Operand := do
  return .paren (← parenthesized expr)

end RSource.Grammar
