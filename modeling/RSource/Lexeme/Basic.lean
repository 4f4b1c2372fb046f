import RSource.Error

/-!
# Lexemes

* `Lexeme` — a token read off the front of some characters, with the characters that follow.
* `Scanned` — the outcome of reading one: a lexeme or a fault.
-/

namespace RSource

/-- A token read off the front of some characters: `text` is read and `rest` follows it. -/
structure Lexeme where
  kind : TokenKind
  text : List Char
  rest : List Char
  deriving DecidableEq, Repr

/-- The outcome of reading a token off the front of some characters. -/
abbrev Scanned := Except LexFault Lexeme

end RSource
