import RSource.Location
import RSource.Token.Kind

/-!
# Tokens

* `Token` — a classified slice of the source, with its place and byte offset.
-/

namespace RSource

/-- A classified slice of the source: `lexeme` stands at byte `offset`, whose place is `loc`. -/
structure Token where
  kind : TokenKind
  lexeme : String
  loc : Location
  offset : Nat
  deriving DecidableEq, Repr

end RSource
