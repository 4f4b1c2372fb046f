import RSource.Lexeme.Basic

/-!
# Strings, quoted names, special operators and comments

* `untilClose` — the characters up to and with a closing mark; a backslash takes the next
  character with it, so that one never closes.
* `delimited` — reads a string or a quoted name, which may span lines.
* `specialOp` — reads an operator between percent signs, which stays on its line.
* `comment` — reads to the end of the line, without the line feed.
-/

namespace RSource.Lexeme

/-- The characters up to and with the closing mark, and what follows them. `escaped` says that
the next character stands behind a backslash. -/
def untilClose (close : Char) : Bool → List Char → Option (List Char × List Char)
  | _, [] => none
  | escaped, c :: cs =>
      if !escaped && c == close then some ([c], cs)
      else
        match untilClose close (!escaped && c == '\\') cs with
        | none => none
        | some (text, rest) => some (c :: text, rest)

/-- Reads a token from its opening mark to the same mark again. -/
def delimited (kind : TokenKind) (fault : LexFault) (mark : Char) (cs : List Char) : Scanned :=
  match untilClose mark false cs with
  | none => .error fault
  | some (text, rest) => .ok ⟨kind, mark :: text, rest⟩

/-- Whether the character may stand inside a special operator. -/
def isSpecialChar (c : Char) : Bool := c != '%' && c != '\n'

/-- Reads a special operator behind its first percent sign. -/
def specialOp (cs : List Char) : Scanned :=
  match cs.dropWhile isSpecialChar with
  | '%' :: rest => .ok ⟨.special, '%' :: (cs.takeWhile isSpecialChar ++ ['%']), rest⟩
  | _ => .error .unterminatedSpecialOp

/-- Reads a comment. -/
def comment (cs : List Char) : Lexeme :=
  ⟨.comment, cs.takeWhile (· != '\n'), cs.dropWhile (· != '\n')⟩

end RSource.Lexeme
