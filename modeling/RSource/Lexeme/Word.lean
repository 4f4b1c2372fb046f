import RSource.Lexeme.Basic
import RSource.Text.Alphabetic
import RSource.Text.Numeric

/-!
# Names and reserved words

* `startsName`, `inName` — the characters a name starts with and goes on with.
* `nameRun`, `afterNameRun` — the longest run of name characters, and what follows it.
* `wordKind` — the kind of a word: a reserved word by its table, all else a name.
* `word` — reads the longest word.
-/

namespace RSource.Lexeme

/-- Whether a name may start with the character. -/
def startsName (c : Char) : Bool := isAlphabetic c || c == '.'

/-- Whether a name may go on with the character. -/
def inName (c : Char) : Bool := isAlphabetic c || isNumeric c || c == '.' || c == '_'

/-- The longest run of name characters at the front. -/
def nameRun (cs : List Char) : List Char := cs.takeWhile inName

/-- What follows the longest run of name characters. -/
def afterNameRun (cs : List Char) : List Char := cs.dropWhile inName

@[simp] theorem nameRun_append_afterNameRun (cs : List Char) :
    nameRun cs ++ afterNameRun cs = cs := List.takeWhile_append_dropWhile

/-- The reserved words. A missing value has a word for each type. -/
def reservedWords : List (String × TokenKind) :=
  [("if", .ifWord), ("else", .elseWord), ("repeat", .repeatWord), ("while", .whileWord),
   ("function", .functionWord), ("for", .forWord), ("in", .inWord), ("next", .nextWord),
   ("break", .breakWord), ("TRUE", .trueWord), ("FALSE", .falseWord), ("NULL", .nullWord),
   ("Inf", .infWord), ("NaN", .nanWord), ("NA", .naWord), ("NA_integer_", .naWord),
   ("NA_real_", .naWord), ("NA_character_", .naWord), ("NA_complex_", .naWord)]

/-- The kind of a word. -/
def wordKind (word : String) : TokenKind := (reservedWords.lookup word).getD .ident

/-- Reads the longest word. -/
def word (cs : List Char) : Lexeme :=
  ⟨wordKind (String.ofList (nameRun cs)), nameRun cs, afterNameRun cs⟩

end RSource.Lexeme
