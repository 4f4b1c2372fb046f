/-!
# Kinds of tokens

* `TokenKind` — every kind of token; a numeric constant also says what kind of number it is.
* `TokenKind.category` — the coarse categories of the language.
* `TokenKind.label` — the fixed spelling of a kind, or a name for it where the lexeme is free.
* `TokenKind.shown` — the form in a message: a spelling stands between backticks, a label stands
  bare.
-/

namespace RSource

/-- The written form of a numeric constant. -/
inductive NumKind where
  | integer
  | float
  | hex
  | complex
  deriving DecidableEq, Repr

/-- The kinds of tokens. -/
inductive TokenKind where
  | ident
  | quotedIdent
  | num (form : NumKind)
  | str
  -- reserved words
  | ifWord
  | elseWord
  | repeatWord
  | whileWord
  | functionWord
  | forWord
  | inWord
  | nextWord
  | breakWord
  -- reserved words that are constants
  | trueWord
  | falseWord
  | nullWord
  | infWord
  | nanWord
  | naWord
  -- assignment
  | leftAssign
  | superLeftAssign
  | rightAssign
  | superRightAssign
  | eqAssign
  | colonAssign
  -- the other operators
  | eq
  | notEq
  | lt
  | ltEq
  | gt
  | gtEq
  | and
  | andAnd
  | or
  | orOr
  | not
  | plus
  | minus
  | star
  | slash
  | caret
  | colon
  | tilde
  | question
  | dollar
  | atSign
  | special
  -- punctuation
  | lparen
  | rparen
  | lbrace
  | rbrace
  | lbracket
  | lbracket2
  | rbracket
  | comma
  | semicolon
  | newline
  | comment
  | eof
  deriving DecidableEq, Repr

/-- The coarse categories of tokens. -/
inductive TokenCategory where
  | identifier
  | quotedIdentifier
  | numeric (form : NumKind)
  | string
  | keyword
  | operator
  | punctuation
  | comment
  | endOfInput
  deriving DecidableEq, Repr

namespace TokenKind

/-- The category of a kind. -/
def category : TokenKind → TokenCategory
  | ident => .identifier
  | quotedIdent => .quotedIdentifier
  | num form => .numeric form
  | str => .string
  | ifWord | elseWord | repeatWord | whileWord | functionWord | forWord | inWord | nextWord
  | breakWord | trueWord | falseWord | nullWord | infWord | nanWord | naWord => .keyword
  | leftAssign | superLeftAssign | rightAssign | superRightAssign | eqAssign | colonAssign
  | eq | notEq | lt | ltEq | gt | gtEq | and | andAnd | or | orOr | not | plus | minus | star
  | slash | caret | colon | tilde | question | dollar | atSign | special => .operator
  | lparen | rparen | lbrace | rbrace | lbracket | lbracket2 | rbracket | comma | semicolon
  | newline => .punctuation
  | comment => .comment
  | eof => .endOfInput

/-- The fixed spelling of a kind, or what a message calls a kind whose lexemes differ. -/
def label : TokenKind → String
  | ident => "identifier"
  | quotedIdent => "quoted identifier"
  | num _ => "numeric constant"
  | str => "string constant"
  | ifWord => "if"
  | elseWord => "else"
  | repeatWord => "repeat"
  | whileWord => "while"
  | functionWord => "function"
  | forWord => "for"
  | inWord => "in"
  | nextWord => "next"
  | breakWord => "break"
  | trueWord => "TRUE"
  | falseWord => "FALSE"
  | nullWord => "NULL"
  | infWord => "Inf"
  | nanWord => "NaN"
  | naWord => "NA"
  | leftAssign => "<-"
  | superLeftAssign => "<<-"
  | rightAssign => "->"
  | superRightAssign => "->>"
  | eqAssign => "="
  | colonAssign => ":="
  | eq => "=="
  | notEq => "!="
  | lt => "<"
  | ltEq => "<="
  | gt => ">"
  | gtEq => ">="
  | and => "&"
  | andAnd => "&&"
  | or => "|"
  | orOr => "||"
  | not => "!"
  | plus => "+"
  | minus => "-"
  | star => "*"
  | slash => "/"
  | caret => "^"
  | colon => ":"
  | tilde => "~"
  | question => "?"
  | dollar => "$"
  | atSign => "@"
  | special => "special operator"
  | lparen => "("
  | rparen => ")"
  | lbrace => "\x7b"
  | rbrace => "\x7d"
  | lbracket => "["
  | lbracket2 => "[["
  | rbracket => "]"
  | comma => ","
  | semicolon => ";"
  | newline => "newline"
  | comment => "comment"
  | eof => "end of input"

/-- Whether every token of the kind is shown by its spelling. -/
def isSpelled (k : TokenKind) : Bool :=
  match k.category with
  | .operator | .keyword | .punctuation => k != special && k != newline
  | _ => false

/-- The kind as a message names it. -/
def shown (k : TokenKind) : String :=
  if k.isSpelled then "`" ++ k.label ++ "`" else k.label

end TokenKind

end RSource
