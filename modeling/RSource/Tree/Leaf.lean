import RSource.Token.Basic

/-!
# Names and constants

* `Identifier` — a name without its backticks, and whether it had any.
* `Constant` — a constant as it is spelled in the source, with its kind.
* `ArgName` — what may name an argument: a name, a string or the null constant.
* `Identifier.ofToken`, `Constant.ofToken?`, `ArgName.ofToken?` — the leaf that a token is.
-/

namespace RSource

/-- A name at its place. Escapes inside backticks stay as they are written. -/
structure Identifier where
  loc : Location
  name : String
  quoted : Bool
  deriving DecidableEq, Repr

/-- The kinds of constants. -/
inductive ConstantKind where
  | integer
  | float
  | hex
  | complex
  | string
  | logical
  | null
  | inf
  | nan
  | na
  deriving DecidableEq, Repr

/-- A constant at its place, spelled as in the source. -/
structure Constant where
  loc : Location
  kind : ConstantKind
  text : String
  deriving DecidableEq, Repr

/-- The name of an argument. -/
inductive ArgName where
  | identifier (i : Identifier)
  | constant (c : Constant)
  deriving DecidableEq, Repr

/-- The characters between two backticks, if the lexeme stands between two. -/
def betweenBackticks? (lexeme : List Char) : Option (List Char) :=
  match lexeme with
  | '\x60' :: inner => if inner.getLast? = some '\x60' then some inner.dropLast else none
  | _ => none

/-- The name a token spells. A quoted name loses its backticks. -/
def Identifier.ofToken (t : Token) : Identifier :=
  if t.kind = .quotedIdent then
    ⟨t.loc, ((betweenBackticks? t.lexeme.toList).map String.ofList).getD t.lexeme, true⟩
  else ⟨t.loc, t.lexeme, false⟩

/-- The kind of constant that a token is. -/
def ConstantKind.ofKind? : TokenKind → Option ConstantKind
  | .num .integer => some integer
  | .num .float => some float
  | .num .hex => some hex
  | .num .complex => some complex
  | .str => some string
  | .trueWord | .falseWord => some logical
  | .nullWord => some null
  | .infWord => some inf
  | .nanWord => some nan
  | .naWord => some na
  | _ => none

/-- The constant that a token is. -/
def Constant.ofToken? (t : Token) : Option Constant :=
  match ConstantKind.ofKind? t.kind with
  | none => none
  | some kind => some ⟨t.loc, kind, t.lexeme⟩

/-- The argument name that a token may be. -/
def ArgName.ofToken? (t : Token) : Option ArgName :=
  match t.kind with
  | .ident | .quotedIdent => some (identifier (.ofToken t))
  | .str | .nullWord => (Constant.ofToken? t).map constant
  | _ => none

end RSource
