import RSource.Lexeme.Basic

/-!
# Operators and punctuation

* `symbols` — every spelling with its kind, longer spellings first.
* `symbol?` — reads the longest spelling that stands at the front.
-/

namespace RSource.Lexeme

/-- The spellings of operators and punctuation. No spelling stands behind one that starts it, so
the first that fits is the longest. -/
def symbols : List (List Char × TokenKind) :=
  [(['<', '<', '-'], .superLeftAssign), (['-', '>', '>'], .superRightAssign),
   (['<', '-'], .leftAssign), (['<', '='], .ltEq), (['-', '>'], .rightAssign),
   ([':', '='], .colonAssign), (['=', '='], .eq), (['!', '='], .notEq), (['>', '='], .gtEq),
   (['&', '&'], .andAnd), (['|', '|'], .orOr), (['*', '*'], .caret), (['[', '['], .lbracket2),
   (['<'], .lt), (['-'], .minus), ([':'], .colon), (['='], .eqAssign), (['!'], .not),
   (['>'], .gt), (['&'], .and), (['|'], .or), (['*'], .star), (['['], .lbracket),
   (['+'], .plus), (['/'], .slash), (['^'], .caret), (['~'], .tilde), (['?'], .question),
   (['$'], .dollar), (['@'], .atSign), (['('], .lparen), ([')'], .rparen), (['\x7b'], .lbrace),
   (['\x7d'], .rbrace), ([']'], .rbracket), ([','], .comma), ([';'], .semicolon)]

/-- Reads an operator or a punctuation mark. -/
def symbol? (cs : List Char) : Option Lexeme :=
  match symbols.find? (fun s => s.1.isPrefixOf cs) with
  | none => none
  | some (text, kind) => some ⟨kind, text, cs.drop text.length⟩

end RSource.Lexeme
