import RSource.Parse.Basic
import RSource.Tree.Basic

/-!
# Names, arguments and formals

The parses of lists between brackets. Each takes the parse of an expression as a parameter, and a
bound on the number of items, which no source with fewer tokens reaches.

* `Grammar.name` — a name where only a name may stand.
* `Grammar.arguments`, `Grammar.group`, `Grammar.groups` — the calls and subscripts behind an
  operand.
* `Grammar.formals` — the parameters of a function.
-/

namespace RSource.Grammar

open Parse

/-- The parse of an expression whose operators outside brackets have at least the given left
power. -/
abbrev ExprParse := Nat → Parse Expression

/-- A name where only a name may stand. -/
def name : Parse Identifier := do
  let t ← look
  if t.kind = .ident ∨ t.kind = .quotedIdent then
    drop
    return .ofToken t
  else .reject [.identifier]

/-- An argument whose first token may name it: it is named if an equals sign follows, and then
its value may be missing. -/
def argument (expr : ExprParse) (close : TokenKind) : Parse Argument := do
  match ArgName.ofToken? (← look) with
  | none => return .value (← expr 0)
  | some n =>
      if (← lookSecond).kind = .eqAssign then
        drop
        drop
        let next ← look
        if next.kind = .comma ∨ next.kind = close then return .name n
        else return .named n (← expr 0)
      else return .value (← expr 0)

/-- What stands before the next comma: an argument, or nothing. -/
def slot (expr : ExprParse) (close : TokenKind) : Parse Argument := do
  if (← look).kind = .comma then return .empty else argument expr close

/-- The slots from here to the closing token, which is left. There is at least one. -/
def slots (expr : ExprParse) (close : TokenKind) : Nat → Parse (List Argument)
  | 0 => outOfBound
  | bound + 1 => do
      let first ← slot expr close
      let next ← look
      if next.kind = .comma then
        drop
        -- A comma before the closing token separates one more slot, which is empty.
        if (← look).kind = close then return [first, .empty]
        else return first :: (← slots expr close bound)
      else if next.kind = close then return [first]
      else .reject [.token .comma, .token close]

/-- The slots between brackets, up to the closing token, which is left. -/
def arguments (expr : ExprParse) (close : TokenKind) (bound : Nat) : Parse (List Argument) := do
  if (← look).kind = close then return [] else slots expr close bound

/-- The second closing bracket of an element subscript, adjacent to the first. -/
def secondBracket (close : Token) : Parse Unit := do
  let t ← look
  if t.kind = .rbracket ∧ t.offset = close.offset + 1 then drop else .reject [.token .rbracket]

/-- The token or tokens that close a pair of brackets. -/
def closing (kind : Brackets) : Parse Unit := do
  let close ← demand kind.closing
  if kind = .element then secondBracket close else return ()

/-- One call or subscript. -/
def group (expr : ExprParse) (bound : Nat) (kind : Brackets) : Parse Group := do
  drop
  opened .free
  let loc := (← look).loc
  let slots ← arguments expr kind.closing bound
  closing kind
  closed
  return .mk loc kind slots

/-- The calls and subscripts that stand here. -/
def groups (expr : ExprParse) (bound : Nat) : Nat → Parse (List Group)
  | 0 => outOfBound
  | n + 1 => do
      match Brackets.ofKind? (← look).kind with
      | none => return []
      | some kind =>
          let first ← group expr bound kind
          return first :: (← groups expr bound n)

/-- One parameter of a function. -/
def formal (expr : ExprParse) : Parse Formal := do
  let i ← name
  if (← look).kind = .eqAssign then
    drop
    return .defaulted i (← expr 0)
  else return .required i

/-- The parameters from here to the closing parenthesis, which is left. There is at least one,
and none is left empty. -/
def someFormals (expr : ExprParse) : Nat → Parse (List Formal)
  | 0 => outOfBound
  | bound + 1 => do
      let first ← formal expr
      let next ← look
      if next.kind = .comma then
        drop
        return first :: (← someFormals expr bound)
      else if next.kind = .rparen then return [first]
      else .reject [.token .comma, .token .rparen]

/-- The parameters between parentheses, up to the closing one, which is left. -/
def formals (expr : ExprParse) (bound : Nat) : Parse (List Formal) := do
  if (← look).kind = .rparen then return [] else someFormals expr bound

end RSource.Grammar
