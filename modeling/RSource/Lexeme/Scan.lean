import RSource.Lexeme.Delimited
import RSource.Lexeme.Number
import RSource.Lexeme.Symbol
import RSource.Text.WhiteSpace

/-!
# Reading one token

* `Lead` — what the front of the text announces.
* `lead` — the announcement, from the first character and, behind a point, the second.
* `scan` — reads the token at the front. It knows nothing of places: they are counted over what
  it has read.
* `blanks`, `afterBlanks` — the blanks before a token, and what follows them.
-/

namespace RSource.Lexeme

/-- What the front of a text announces. -/
inductive Lead where
  | eof
  | newline
  | comment
  | string (mark : Char)
  | quotedIdent
  | special
  | number
  | word
  /-- A name cannot start with an underscore. -/
  | underscore
  | symbol (c : Char)
  deriving DecidableEq, Repr

/-- Whether a digit comes first. -/
def startsWithDigit : List Char → Bool
  | [] => false
  | c :: _ => isDigit c

/-- What the front of the text announces. A point starts a number if a digit stands behind it
and a name otherwise. -/
def lead : List Char → Lead
  | [] => .eof
  | c :: cs =>
      if c = '\n' then .newline
      else if c = '#' then .comment
      else if c = '\x22' ∨ c = '\x27' then .string c
      else if c = '\x60' then .quotedIdent
      else if c = '%' then .special
      else if isDigit c ∨ c = '.' ∧ startsWithDigit cs then .number
      else if startsName c then .word
      else if c = '_' then .underscore
      else .symbol c

/-- Reads the token at the front. At the end of the text that is the empty token `eof`. -/
def scan (cs : List Char) : Scanned :=
  match lead cs with
  | .eof => .ok ⟨.eof, [], []⟩
  | .newline => .ok ⟨.newline, cs.take 1, cs.drop 1⟩
  | .comment => .ok (comment cs)
  | .string mark => delimited .str .unterminatedString mark (cs.drop 1)
  | .quotedIdent => delimited .quotedIdent .unterminatedQuotedIdent '\x60' (cs.drop 1)
  | .special => specialOp (cs.drop 1)
  | .number => number cs
  | .word => .ok (word cs)
  | .underscore => .error (.invalidIdentifier (String.ofList (nameRun cs)))
  | .symbol c =>
      match symbol? cs with
      | none => .error (.unexpectedChar c)
      | some l => .ok l

/-- The blanks at the front. -/
def blanks (cs : List Char) : List Char := cs.takeWhile isBlank

/-- What follows the blanks at the front. -/
def afterBlanks (cs : List Char) : List Char := cs.dropWhile isBlank

@[simp] theorem blanks_append_afterBlanks (cs : List Char) : blanks cs ++ afterBlanks cs = cs :=
  List.takeWhile_append_dropWhile

end RSource.Lexeme
