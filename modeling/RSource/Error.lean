import RSource.Text.Quoted
import RSource.Token.Basic

/-!
# What can be wrong with a source

* `LexFault`, `LexError` — a fault of the characters, and the fault at its place.
* `Continuation` — what would have been accepted.
* `SyntaxError` — a token that no rule accepts, with the continuations that were open.
* `Error` — either of them, or nesting past the limit; `Error.message` is its text.
* `Diagnostic` — an error as a range of characters on a line with a text.
-/

namespace RSource

/-- Why no token can be read. -/
inductive LexFault where
  | unexpectedChar (c : Char)
  | invalidIdentifier (lexeme : String)
  | invalidNumber (lexeme : String)
  | unterminatedString
  | unterminatedQuotedIdent
  | unterminatedSpecialOp
  | invalidUtf8
  deriving DecidableEq, Repr

/-- A fault at its place: the first character of what was being read. -/
structure LexError where
  fault : LexFault
  loc : Location
  deriving DecidableEq, Repr

namespace LexFault

/-- The text of a fault up to its place. -/
def text : LexFault → String
  | unexpectedChar c => "unexpected character " ++ quotedChar c ++ " at "
  | invalidIdentifier lexeme => "invalid identifier `" ++ lexeme ++ "` at "
  | invalidNumber lexeme => "invalid numeric constant `" ++ lexeme ++ "` at "
  | unterminatedString => "unterminated string constant starting at "
  | unterminatedQuotedIdent => "unterminated quoted identifier starting at "
  | unterminatedSpecialOp => "unterminated special operator starting at "
  | invalidUtf8 => "invalid utf-8 at "

/-- The number of characters a fault covers. -/
def width : LexFault → Nat
  | invalidIdentifier lexeme | invalidNumber lexeme => lexeme.length
  | _ => 1

end LexFault

/-- The text of a lexical error. -/
def LexError.message (e : LexError) : String := e.fault.text ++ e.loc.text

/-- A continuation that would have been accepted. -/
inductive Continuation where
  | token (kind : TokenKind)
  | expression
  | identifier
  | statementEnd
  deriving DecidableEq, Repr

/-- The continuation as a message names it. -/
def Continuation.shown : Continuation → String
  | token kind => kind.shown
  | expression => "expression"
  | identifier => "identifier"
  | statementEnd => "newline or `;`"

/-- A token that no open rule accepts, and the continuations that were open. -/
structure SyntaxError where
  kind : TokenKind
  lexeme : String
  loc : Location
  expected : List Continuation
  deriving DecidableEq, Repr

namespace SyntaxError

/-- The token as a message names it: a free lexeme is shown after its label, and a special
operator by its lexeme alone. -/
def tokenText (kind : TokenKind) (lexeme : String) : String :=
  match kind.category with
  | .identifier | .quotedIdentifier | .numeric _ | .string =>
      kind.shown ++ " `" ++ lexeme ++ "`"
  | _ => if kind = .special then "`" ++ lexeme ++ "`" else kind.shown

/-- The text of a syntax error. -/
def message (e : SyntaxError) : String :=
  "unexpected " ++ tokenText e.kind e.lexeme ++ " at " ++ e.loc.text ++
    ", expected one of " ++ String.intercalate ", " (e.expected.map Continuation.shown)

/-- The syntax error at a token. -/
def ofToken (t : Token) (expected : List Continuation) : SyntaxError :=
  ⟨t.kind, t.lexeme, t.loc, expected⟩

end SyntaxError

/-- Why a source is refused. -/
inductive Error where
  | lexical (e : LexError)
  | unexpected (e : SyntaxError)
  | tooDeep (loc : Location)
  deriving DecidableEq, Repr

namespace Error

/-- The place of an error. -/
def loc : Error → Location
  | lexical e => e.loc
  | unexpected e => e.loc
  | tooDeep l => l

/-- Whether the characters, rather than the tokens, are at fault. -/
def isLexical : Error → Bool
  | lexical _ => true
  | _ => false

/-- The text of an error. -/
def message : Error → String
  | lexical e => e.message
  | unexpected e => e.message
  | tooDeep l => "expression nested too deeply at " ++ l.text

/-- The number of characters an error covers; none at the end of the input. -/
def width : Error → Nat
  | lexical e => e.fault.width
  | unexpected e => e.lexeme.length
  | tooDeep _ => 1

end Error

/-- An error for display: where it starts, how many characters to mark, and what to say. -/
structure Diagnostic where
  line : UInt32
  col : UInt32
  width : UInt32
  msg : String
  deriving DecidableEq, Repr

/-- The diagnostic of an error. At least one character is marked. -/
def Error.diagnostic (e : Error) : Diagnostic :=
  ⟨e.loc.line, e.loc.col, UInt32.ofNat (max e.width 1), e.message⟩

end RSource
