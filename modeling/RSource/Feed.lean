import RSource.Reader

/-!
# The token feed of a parse

* `Feed` — a reader with the brackets it stands in. Tokens are read when they are asked for.
* `Layout` — whether line feeds end statements in a pair of brackets.
* `Reader.nextShown`, `Reader.skipLines` — the next token that is not hidden, and what follows
  the line feeds here.
* `Feed.ahead`, `Feed.take` — the tokens a parse sees: no comments, and no line feeds while the
  innermost brackets ignore them.
* `Feed.skipLines`, `Feed.beyondLines` — line feeds passed over, or looked beyond, in any brackets.
-/

namespace RSource

/-- Whether line feeds end statements between a pair of brackets: in braces they do, in the
others they are ignored. -/
inductive Layout where
  | lined
  | free
  deriving DecidableEq, Repr

namespace Reader

/-- The next token that is not hidden, and the reader past it. Each hidden token takes a
character, so one step for every character left is enough. -/
def nextShownWithin (hidden : TokenKind → Bool) :
    List Char → Reader → Except LexError (Token × Reader)
  | [], r => r.next
  | _ :: left, r =>
      match r.next with
      | .error e => .error e
      | .ok (t, after) =>
          if hidden t.kind then nextShownWithin hidden left after else .ok (t, after)

/-- The next token that is not hidden, and the reader past it. -/
def nextShown (hidden : TokenKind → Bool) (r : Reader) : Except LexError (Token × Reader) :=
  nextShownWithin hidden r.rest r

/-- The `n`th token ahead, from zero, of those that are not hidden; the end of the input if that
comes first. -/
def ahead (hidden : TokenKind → Bool) : Nat → Reader → Except LexError Token
  | 0, r =>
      match r.nextShown hidden with
      | .error e => .error e
      | .ok (t, _) => .ok t
  | n + 1, r =>
      match r.nextShown hidden with
      | .error e => .error e
      | .ok (t, after) => if t.kind = .eof then .ok t else ahead hidden n after

/-- Passes over line feeds and the comments between them, one step for every character left.
Where none is left no line feed stands. -/
def skipLinesWithin : List Char → Reader → Except LexError Reader
  | [], r => .ok r
  | _ :: left, r =>
      match r.nextShown (· == .comment) with
      | .error e => .error e
      | .ok (t, after) => if t.kind = .newline then skipLinesWithin left after else .ok r

/-- Passes over all line feeds that stand here. -/
def skipLines (r : Reader) : Except LexError Reader := skipLinesWithin r.rest r

end Reader

/-- A reader with the layouts of the open brackets, the innermost first. -/
structure Feed where
  reader : Reader
  layouts : List Layout
  deriving DecidableEq, Repr

namespace Feed

/-- The feed of a text, outside all brackets. -/
def ofText (text : List Char) : Feed := ⟨.ofText text, []⟩

/-- Whether the innermost brackets ignore line feeds. -/
def isFree (s : Feed) : Bool := s.layouts.head? == some .free

/-- Whether a parse sees no token of the kind here. -/
def hides (s : Feed) (k : TokenKind) : Bool :=
  k == .comment || (s.isFree && k == .newline)

/-- The `n`th token a parse sees ahead, from zero. -/
def ahead (s : Feed) (n : Nat) : Except LexError Token := s.reader.ahead s.hides n

/-- The next token a parse sees. -/
def front (s : Feed) : Except LexError Token := s.ahead 0

/-- Takes the next token a parse sees, and what is hidden before it. -/
def take (s : Feed) : Except LexError (Token × Feed) :=
  match s.reader.nextShown s.hides with
  | .error e => .error e
  | .ok (t, after) => .ok (t, { s with reader := after })

/-- Takes all line feeds that stand here, in any brackets. -/
def skipLines (s : Feed) : Except LexError Feed :=
  match s.reader.skipLines with
  | .error e => .error e
  | .ok r => .ok { s with reader := r }

/-- The kind of the next token that is no line feed, in any brackets. -/
def beyondLines (s : Feed) : Except LexError TokenKind :=
  match s.reader.nextShown (fun k => k == .comment || k == .newline) with
  | .error e => .error e
  | .ok (t, _) => .ok t.kind

/-- Inside one more pair of brackets. -/
def enter (s : Feed) (l : Layout) : Feed := { s with layouts := l :: s.layouts }

/-- Outside the innermost brackets. -/
def leave (s : Feed) : Feed := { s with layouts := s.layouts.tail }

/-- Whether any brackets are open. -/
def inBrackets (s : Feed) : Bool := !s.layouts.isEmpty

end Feed

end RSource
