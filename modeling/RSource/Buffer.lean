import RSource.Parse.Basic

/-!
# A token feed with a buffer

A `Feed` looks ahead by reading the same tokens again. A buffered feed reads every token once: what
has been looked at waits in a buffer until it is taken, and the end of the input is remembered.

* `BufferedFeed` — a reader, the tokens read but not taken, the end once it has been read, and the
  brackets.
* `BufferedFeed.buffered` — the token at a place, read up to there when it is asked for.
* `BufferedFeed.ahead`, `BufferedFeed.take`, `BufferedFeed.skipLines`,
  `BufferedFeed.beyondLines` — what a parse asks.
* `Request`, `Answer` — the operations of a token feed and what they give.
* `answers` — the answers to some requests in turn, up to the first that fails.
* `Parse.runBuffered` — carries a parse out on a buffered feed.
-/

namespace RSource

/-- A reader with the tokens that have been read but not taken, the end of the input once it has
been read, and the layouts of the open brackets, the innermost first. -/
structure BufferedFeed where
  reader : Reader
  buffer : List Token
  ending : Option Token
  layouts : List Layout
  deriving DecidableEq, Repr

namespace BufferedFeed

/-- The buffered feed of a text, outside all brackets, with nothing read. -/
def ofText (text : List Char) : BufferedFeed := ⟨.ofText text, [], none, []⟩

/-- Whether the innermost brackets ignore line feeds. -/
def isFree (b : BufferedFeed) : Bool := b.layouts.head? == some .free

/-- Reads one more token into the buffer. Comments are passed over, and the end is remembered. -/
def read (b : BufferedFeed) : Except LexError (Token × BufferedFeed) :=
  match b.reader.nextShown (· == .comment) with
  | .error e => .error e
  | .ok (t, after) =>
      .ok (t, { b with
        reader := after
        buffer := b.buffer ++ [t]
        ending := if t.kind = .eof then some t else b.ending })

/-- Reads `n` more tokens and then the one that is given, none of them past the end. -/
def readOn : Nat → BufferedFeed → Except LexError (Token × BufferedFeed)
  | n, b =>
      match b.ending with
      | some eof => .ok (eof, b)
      | none =>
          match b.read with
          | .error e => .error e
          | .ok (t, b') =>
              match n with
              | 0 => .ok (t, b')
              | n + 1 => readOn n b'

/-- The token at place `i`, line feeds included. It is read when the buffer does not hold it. -/
def buffered (i : Nat) (b : BufferedFeed) : Except LexError (Token × BufferedFeed) :=
  match b.buffer[i]? with
  | some t => .ok (t, b)
  | none => b.readOn (i - b.buffer.length)

/-- No more tokens than these are left before the end: those in the buffer, and every other takes
a character. -/
def bound (b : BufferedFeed) : Nat := b.buffer.length + b.reader.rest.length

/-- The `n`th token from place `i` on that is not hidden, and the end if that comes first, with one
step for every token that can be left. -/
def aheadFrom (hidden : TokenKind → Bool) :
    Nat → Nat → Nat → BufferedFeed → Except LexError (Token × BufferedFeed)
  | 0, _, i, b => b.buffered i
  | steps + 1, n, i, b =>
      match b.buffered i with
      | .error e => .error e
      | .ok (t, b') =>
          if t.kind = .eof then .ok (t, b')
          else if hidden t.kind then aheadFrom hidden steps n (i + 1) b'
          else
            match n with
            | 0 => .ok (t, b')
            | n + 1 => aheadFrom hidden steps n (i + 1) b'

/-- The `n`th token a parse sees ahead, from zero. -/
def ahead (n : Nat) (b : BufferedFeed) : Except LexError (Token × BufferedFeed) :=
  b.aheadFrom (fun k => b.isFree && k == .newline) b.bound n 0

/-- The kind of the next token that is no line feed, in any brackets. -/
def beyondLines (b : BufferedFeed) : Except LexError (TokenKind × BufferedFeed) :=
  match b.aheadFrom (· == .newline) b.bound 0 0 with
  | .error e => .error e
  | .ok (t, b') => .ok (t.kind, b')

/-- Takes the first token out of the buffer. -/
def pop (b : BufferedFeed) : BufferedFeed := { b with buffer := b.buffer.tail }

/-- Takes the line feeds in front, with one step for every token that can be left. -/
def skipLinesWithin : Nat → BufferedFeed → Except LexError BufferedFeed
  | 0, b =>
      match b.buffered 0 with
      | .error e => .error e
      | .ok (_, b') => .ok b'
  | steps + 1, b =>
      match b.buffered 0 with
      | .error e => .error e
      | .ok (t, b') => if t.kind = .newline then skipLinesWithin steps b'.pop else .ok b'

/-- Takes all line feeds that stand here, in any brackets. -/
def skipLines (b : BufferedFeed) : Except LexError BufferedFeed := b.skipLinesWithin b.bound

/-- Takes the token in front, whatever it is. The end stays. -/
def takeFirst (b : BufferedFeed) : Except LexError (Token × BufferedFeed) :=
  match b.buffered 0 with
  | .error e => .error e
  | .ok (t, b') => .ok (t, if t.kind = .eof then b' else b'.pop)

/-- Takes the next token a parse sees, and the line feeds that are hidden before it. -/
def take (b : BufferedFeed) : Except LexError (Token × BufferedFeed) :=
  if b.isFree then
    match b.skipLines with
    | .error e => .error e
    | .ok b' => b'.takeFirst
  else b.takeFirst

/-- Inside one more pair of brackets. -/
def enter (b : BufferedFeed) (l : Layout) : BufferedFeed := { b with layouts := l :: b.layouts }

/-- Outside the innermost brackets. -/
def leave (b : BufferedFeed) : BufferedFeed := { b with layouts := b.layouts.tail }

/-- Whether any brackets are open. -/
def inBrackets (b : BufferedFeed) : Bool := !b.layouts.isEmpty

end BufferedFeed

/-! ## Requests -/

/-- The operations of a token feed. -/
inductive Request where
  /-- The next visible token. -/
  | look
  /-- The kind of the next visible token. -/
  | lookKind
  /-- The `n`th visible token, from zero. -/
  | ahead (n : Nat)
  /-- The next visible token, which is taken. -/
  | take
  /-- The line feeds that stand here, which are taken. -/
  | skipLines
  /-- The kind of the next token that is no line feed. -/
  | beyondLines
  | enter (layout : Layout)
  | leave
  | inBrackets
  deriving DecidableEq, Repr

/-- What a request gives. -/
inductive Answer where
  | token (t : Token)
  | kind (k : TokenKind)
  | flag (b : Bool)
  | done
  deriving DecidableEq, Repr

variable {σ : Type}

/-- The answers to some requests in turn, up to the first that fails. -/
def answers (serve : Request → σ → Except LexError (Answer × σ)) :
    List Request → σ → List (Except LexError Answer)
  | [], _ => []
  | request :: requests, s =>
      match serve request s with
      | .error e => [.error e]
      | .ok (answer, s') => .ok answer :: answers serve requests s'

/-- One request to a buffered feed. -/
def BufferedFeed.serve : Request → BufferedFeed → Except LexError (Answer × BufferedFeed)
  | .look, b => (b.ahead 0).map fun p => (.token p.1, p.2)
  | .lookKind, b => (b.ahead 0).map fun p => (.kind p.1.kind, p.2)
  | .ahead n, b => (b.ahead n).map fun p => (.token p.1, p.2)
  | .take, b => b.take.map fun p => (.token p.1, p.2)
  | .skipLines, b => b.skipLines.map fun b' => (.done, b')
  | .beyondLines, b => b.beyondLines.map fun p => (.kind p.1, p.2)
  | .enter layout, b => .ok (.done, b.enter layout)
  | .leave, b => .ok (.done, b.leave)
  | .inBrackets, b => .ok (.flag b.inBrackets, b)

/-- One request to a feed. -/
def Feed.serve : Request → Feed → Except LexError (Answer × Feed)
  | .look, s => s.front.map fun t => (.token t, s)
  | .lookKind, s => s.front.map fun t => (.kind t.kind, s)
  | .ahead n, s => (s.ahead n).map fun t => (.token t, s)
  | .take, s => s.take.map fun p => (.token p.1, p.2)
  | .skipLines, s => s.skipLines.map fun s' => (.done, s')
  | .beyondLines, s => s.beyondLines.map fun k => (.kind k, s)
  | .enter layout, s => .ok (.done, s.enter layout)
  | .leave, s => .ok (.done, s.leave)
  | .inBrackets, s => .ok (.flag s.inBrackets, s)

/-- Carries a parse out on a buffered feed. -/
def Parse.runBuffered {α : Type} : Parse α → BufferedFeed → Except Error (α × BufferedFeed)
  | done a, b => .ok (a, b)
  | reject expected, b =>
      match b.ahead 0 with
      | .error e => .error (.lexical e)
      | .ok (t, _) => .error (.unexpected (.ofToken t expected))
  | tooDeep, b =>
      match b.ahead 0 with
      | .error e => .error (.lexical e)
      | .ok (t, _) => .error (.tooDeep t.loc)
  | ahead n k, b =>
      match b.ahead n with
      | .error e => .error (.lexical e)
      | .ok (t, b') => (k t).runBuffered b'
  | take k, b =>
      match b.take with
      | .error e => .error (.lexical e)
      | .ok (t, b') => (k t).runBuffered b'
  | skipLines k, b =>
      match b.skipLines with
      | .error e => .error (.lexical e)
      | .ok b' => (k ()).runBuffered b'
  | beyondLines k, b =>
      match b.beyondLines with
      | .error e => .error (.lexical e)
      | .ok (kind, b') => (k kind).runBuffered b'
  | enter layout k, b => (k ()).runBuffered (b.enter layout)
  | leave k, b => (k ()).runBuffered b.leave
  | inBrackets k, b => (k b.inBrackets).runBuffered b

end RSource
