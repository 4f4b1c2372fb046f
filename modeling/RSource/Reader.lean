import RSource.Lexeme.Scan

/-!
# Reading tokens off a source

* `decodeSource` — the characters of a source given as bytes.
* `Reader` — a cursor with the characters after it; `Reader.next` reads one token.
* `Reader.tokens` — all tokens from here on, the end of the input last.
* `lex` — the tokens of a source, comments and line feeds included.
* `tokenAt?` — the token at any cursor into a text.
-/

namespace RSource

/-- The characters of a source. Bytes that are no UTF-8 are a fault at the place where the
longest well-formed part ends. -/
def decodeSource (bytes : List UInt8) : Except LexError (List Char) :=
  match Utf8.decode bytes with
  | .ok text => .ok text
  | .error n => .error ⟨.invalidUtf8, .ofOffset bytes n⟩

/-- Where reading stands: a cursor and the characters after it. -/
structure Reader where
  cursor : Cursor
  rest : List Char
  deriving DecidableEq, Repr

namespace Reader

/-- Before the first character of a text. -/
def ofText (text : List Char) : Reader := ⟨.start, text⟩

/-- Past the blanks that stand here. -/
def skipBlanks (r : Reader) : Reader :=
  ⟨r.cursor.advance (Lexeme.blanks r.rest), Lexeme.afterBlanks r.rest⟩

/-- Reads a token where one starts. -/
def read (r : Reader) : Except LexError (Token × Reader) :=
  match Lexeme.scan r.rest with
  | .error fault => .error ⟨fault, r.cursor.loc⟩
  | .ok l =>
      .ok (⟨l.kind, String.ofList l.text, r.cursor.loc, r.cursor.offset⟩,
        ⟨r.cursor.advance l.text, l.rest⟩)

/-- Reads the next token, behind any blanks. -/
def next (r : Reader) : Except LexError (Token × Reader) := r.skipBlanks.read

/-- Every token up to and with the end of the input. Each but the last takes a character, so one
step for every character left is enough. -/
def tokensWithin : List Char → Reader → Except LexError (List Token)
  | [], r =>
      match r.next with
      | .error e => .error e
      | .ok (t, _) => .ok [t]
  | _ :: left, r =>
      match r.next with
      | .error e => .error e
      | .ok (t, after) =>
          if t.kind = .eof then .ok [t]
          else
            match tokensWithin left after with
            | .error e => .error e
            | .ok ts => .ok (t :: ts)

/-- Every token from here to the end of the input, or the first fault. -/
def tokens (r : Reader) : Except LexError (List Token) := tokensWithin r.rest r

end Reader

/-- The tokens of a text, the end of the input last. -/
def lexText (text : List Char) : Except LexError (List Token) := (Reader.ofText text).tokens

/-- The tokens of a source, the end of the input last. -/
def lex (bytes : List UInt8) : Except LexError (List Token) :=
  match decodeSource bytes with
  | .error e => .error e
  | .ok text => lexText text

/-- The characters from byte `offset` on; `none` if no character starts there and the text does
not end there. -/
def fromOffset? : Nat → List Char → Option (List Char)
  | 0, cs => some cs
  | _ + 1, [] => none
  | n + 1, c :: cs => if c.utf8Size ≤ n + 1 then fromOffset? (n + 1 - c.utf8Size) cs else none

/-- The token at a cursor and the cursor past it. `none` if the cursor stands inside a character
or past the end. -/
def tokenAt? (text : List Char) (k : Cursor) : Option (Except LexError (Token × Cursor)) :=
  match fromOffset? k.offset text with
  | none => none
  | some rest =>
      match (Reader.mk k rest).next with
      | .error e => some (.error e)
      | .ok (t, after) => some (.ok (t, after.cursor))

end RSource
