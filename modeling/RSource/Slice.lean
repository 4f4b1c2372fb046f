import RSource.Reader

/-!
# Reading by slices of a source

A `Reader` carries the characters behind its cursor. A scan carries offsets into the whole source
and cuts a slice out of it for everything it asks. A slice that starts or ends out of range or
inside a character cannot be cut.

* `untilOffset?`, `slice?` — the characters before a byte offset, and between two of them.
* `Scan` — a dialogue of a scan with its source; a monad.
* `Scan.run` — carries a scan out on a source, from where a token starts.
* `Scan.look`, `Scan.peek`, `Scan.next`, `Scan.eatWhile`, `Scan.fault` — what all scans are made of.
* `Scan.token` — scans one token, whose first character decides how.
* `sliceAt?` — the token at any cursor into a text, its lexeme a slice.
-/

namespace RSource

/-- The characters before byte `offset`; `none` if no character starts there and the text does not
end there. -/
def untilOffset? : Nat → List Char → Option (List Char)
  | 0, _ => some []
  | _ + 1, [] => none
  | n + 1, c :: cs =>
      if c.utf8Size ≤ n + 1 then (untilOffset? (n + 1 - c.utf8Size) cs).map (c :: ·) else none

/-- The characters between two byte offsets; `none` if they are not in order, or if one of them
stands inside a character or past the end. -/
def slice? (text : List Char) (start stop : Nat) : Option (List Char) :=
  if start ≤ stop then (fromOffset? start text).bind (untilOffset? (stop - start)) else none

/-- A scan with a result in `α`. -/
inductive Scan (α : Type) where
  | done (a : α)
  | fail (fault : LexFault)
  /-- Cut what follows the cursor. -/
  | ahead (k : List Char → Scan α)
  /-- Cut what follows the cursor, and move past its first character if there is one. -/
  | bump (k : Option Char → Scan α)
  /-- Cut what stands between the start and the cursor. -/
  | lexeme (k : List Char → Scan α)

namespace Scan

variable {α β : Type}

/-- Goes on with the result of a scan. -/
def bind : Scan α → (α → Scan β) → Scan β
  | done a, f => f a
  | fail fault, _ => .fail fault
  | ahead k, f => .ahead (fun cs => (k cs).bind f)
  | bump k, f => .bump (fun c => (k c).bind f)
  | lexeme k, f => .lexeme (fun cs => (k cs).bind f)

instance : Monad Scan where
  pure := done
  bind := bind

/-- Carries a scan out on a text, for a token that starts at a cursor: what it gives and where the
cursor is then, or the fault at the start. It is `none` if a slice cannot be cut. -/
def run (text : List Char) (start : Cursor) :
    Scan α → Cursor → Option (Except LexError (α × Cursor))
  | done a, k => some (.ok (a, k))
  | fail fault, _ => some (.error ⟨fault, start.loc⟩)
  | ahead f, k =>
      match fromOffset? k.offset text with
      | none => none
      | some cs => (f cs).run text start k
  | bump f, k =>
      match fromOffset? k.offset text with
      | none => none
      | some [] => (f none).run text start k
      | some (c :: _) => (f (some c)).run text start (k.step c)
  | lexeme f, k =>
      match slice? text start.offset k.offset with
      | none => none
      | some cs => (f cs).run text start k

/-- What follows the cursor. -/
def look : Scan (List Char) := .ahead done

/-- The character `n` places behind the cursor, if there is one. -/
def peek (n : Nat) : Scan (Option Char) := do return (← look)[n]?

/-- The character at the cursor, if there is one, which is passed. -/
def next : Scan (Option Char) := .bump done

/-- Passes the characters of which `p` holds, and counts them. It passes no more than the bound,
which no text with fewer characters reaches. -/
def eatWhile (p : Char → Bool) : Nat → Scan Nat
  | 0 => return 0
  | bound + 1 => do
      match ← peek 0 with
      | none => return 0
      | some c =>
          if p c then
            let _ ← next
            return (← eatWhile p bound) + 1
          else return 0

/-- Passes so many characters. -/
def pass : Nat → Scan Unit
  | 0 => return ()
  | n + 1 => do
      let _ ← next
      pass n

/-- A fault of what has been passed, which runs to the end of the name characters. -/
def fault (bound : Nat) (kind : String → LexFault) : Scan α := do
  let _ ← eatWhile Lexeme.inName bound
  .lexeme fun cs => .fail (kind (String.ofList cs))

/-! ## Strings, quoted names, special operators and comments -/

/-- Passes all up to and with the closing mark; a backslash takes the next character with it. -/
def untilMark (mark : Char) (fault : LexFault) : Nat → Scan Unit
  | 0 => .fail fault
  | bound + 1 => do
      match ← next with
      | none => .fail fault
      | some c =>
          if c = '\\' then
            match ← next with
            | none => .fail fault
            | some _ => untilMark mark fault bound
          else if c = mark then return ()
          else untilMark mark fault bound

/-- A string or a quoted name. -/
def delimited (kind : TokenKind) (fault : LexFault) (mark : Char) (bound : Nat) :
    Scan TokenKind := do
  let _ ← next
  untilMark mark fault bound
  return kind

/-- Passes all up to and with a percent sign on the same line. -/
def untilPercent : Nat → Scan Unit
  | 0 => .fail .unterminatedSpecialOp
  | bound + 1 => do
      match ← peek 0 with
      | none => .fail .unterminatedSpecialOp
      | some c =>
          if c = '\n' then .fail .unterminatedSpecialOp
          else if c = '%' then
            let _ ← next
            return ()
          else
            let _ ← next
            untilPercent bound

/-- A special operator. -/
def specialOp (bound : Nat) : Scan TokenKind := do
  let _ ← next
  untilPercent bound
  return .special

/-- A comment, without the line feed. -/
def comment (bound : Nat) : Scan TokenKind := do
  let _ ← eatWhile (· != '\n') bound
  return .comment

/-! ## Numeric constants -/

/-- A hexadecimal numeral behind the cursor. -/
def hexadecimal (bound : Nat) : Scan NumKind := do
  pass 2
  if (← eatWhile Lexeme.isHexDigit bound) = 0 then fault bound .invalidNumber
  else return .hex

/-- Digits, then at most one point with more digits. -/
def mantissa (bound : Nat) : Scan NumKind := do
  let _ ← eatWhile Lexeme.isDigit bound
  if (← peek 0) = some '.' then
    let _ ← next
    let _ ← eatWhile Lexeme.isDigit bound
    return .float
  else return .integer

/-- An exponent, if a digit stands behind the mark and its sign. -/
def exponent (bound : Nat) (form : NumKind) : Scan NumKind := do
  let mark ← peek 0
  if mark = some 'e' ∨ mark = some 'E' then
    let sign ← peek 1
    let signed : Bool := sign = some '+' ∨ sign = some '-'
    if (← peek (if signed then 2 else 1)).any Lexeme.isDigit then
      pass (if signed then 2 else 1)
      let _ ← eatWhile Lexeme.isDigit bound
      return .float
    else return form
  else return form

/-- A hexadecimal or decimal numeral. -/
def numeral (bound : Nat) : Scan NumKind := do
  let first ← peek 0
  let second ← peek 1
  if first = some '0' ∧ (second = some 'x' ∨ second = some 'X') then hexadecimal bound
  else exponent bound (← mantissa bound)

/-- The suffix of a numeral. An `L` and an `i` exclude each other. -/
def suffix (bound : Nat) (form : NumKind) : Scan NumKind := do
  match ← peek 0, ← peek 1 with
  | some 'L', some 'i' | some 'i', some 'L' => fault bound .invalidNumber
  | some 'L', _ =>
      let _ ← next
      return form
  | some 'i', _ =>
      let _ ← next
      return .complex
  | _, _ => return form

/-- A numeric constant, which no name character follows. -/
def number (bound : Nat) : Scan TokenKind := do
  let form ← suffix bound (← numeral bound)
  if (← peek 0).any Lexeme.inName then fault bound .invalidIdentifier
  else return .num form

/-! ## Tokens -/

/-- A name or a reserved word. -/
def word (bound : Nat) : Scan TokenKind := do
  let _ ← eatWhile Lexeme.inName bound
  .lexeme fun cs => return Lexeme.wordKind (String.ofList cs)

/-- An operator or a punctuation mark, the longest that stands here. -/
def symbol (c : Char) : Scan TokenKind := do
  let cs ← look
  match Lexeme.symbols.find? (fun s => s.1.isPrefixOf cs) with
  | none => .fail (.unexpectedChar c)
  | some (text, kind) =>
      pass text.length
      return kind

/-- The token at the cursor. -/
def token (bound : Nat) : Scan TokenKind := do
  match Lexeme.lead (← look) with
  | .eof => return .eof
  | .newline =>
      let _ ← next
      return .newline
  | .comment => comment bound
  | .string mark => delimited .str .unterminatedString mark bound
  | .quotedIdent => delimited .quotedIdent .unterminatedQuotedIdent '\x60' bound
  | .special => specialOp bound
  | .number => number bound
  | .word => word bound
  | .underscore => fault bound .invalidIdentifier
  | .symbol c => symbol c

/-- Passes the blanks that stand here. -/
def skipBlanks (bound : Nat) : Scan Unit := do
  let _ ← eatWhile isBlank bound
  return ()

end Scan

/-- The token at a cursor and the cursor past it: blanks are passed, the token is scanned and its
lexeme is cut. It is `none` if a slice cannot be cut. -/
def sliceAt? (text : List Char) (k : Cursor) : Option (Except LexError (Token × Cursor)) :=
  match (Scan.skipBlanks text.length).run text k k with
  | none => none
  | some (.error e) => some (.error e)
  | some (.ok (_, start)) =>
      match (Scan.token text.length).run text start start with
      | none => none
      | some (.error e) => some (.error e)
      | some (.ok (kind, stop)) =>
          match slice? text start.offset stop.offset with
          | none => none
          | some cs => some (.ok (⟨kind, String.ofList cs, start.loc, start.offset⟩, stop))

end RSource
