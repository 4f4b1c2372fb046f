import RSource.Reader

/-!
# Lexing sessions

* `Session` — a text, the session's own cursor and the cursor the last probe returned.
* `Session.Step` — read on, or probe the text at a cursor without reading on.
* `Session.step` — one step: its result and the session after it. A fault moves nothing.
-/

namespace RSource

/-- A text that is read step by step. `cursor` is where reading stands, and `probed` is where the
last successful probe ended. -/
structure Session where
  text : List Char
  cursor : Cursor
  probed : Cursor
  deriving DecidableEq, Repr

namespace Session

/-- What can be asked of a session. -/
inductive Step where
  /-- Read the next token. -/
  | next
  /-- Probe at a cursor. -/
  | probe (cursor : Cursor)
  /-- Probe where reading stands. -/
  | again
  /-- Probe where the last probe ended. -/
  | follow
  deriving DecidableEq, Repr

/-- A session before its first step. -/
def ofText (text : List Char) : Session := ⟨text, .start, .start⟩

/-- The result of a step; `none` if a probe's cursor is no place between characters. -/
abbrev Result := Option (Except LexError Token)

/-- Reads the next token and moves past it. -/
def next (s : Session) : Result × Session :=
  match tokenAt? s.text s.cursor with
  | none => (none, s)
  | some (.error e) => (some (.error e), s)
  | some (.ok (t, after)) => (some (.ok t), { s with cursor := after })

/-- Reads the token at a cursor and remembers where it ends. -/
def probe (s : Session) (k : Cursor) : Result × Session :=
  match tokenAt? s.text k with
  | none => (none, s)
  | some (.error e) => (some (.error e), s)
  | some (.ok (t, after)) => (some (.ok t), { s with probed := after })

/-- One step. -/
def step (s : Session) : Step → Result × Session
  | .next => s.next
  | .probe k => s.probe k
  | .again => s.probe s.cursor
  | .follow => s.probe s.probed

/-- Each step's result with the session after it. -/
def run : Session → List Step → List (Result × Session)
  | _, [] => []
  | s, st :: steps => s.step st :: run (s.step st).2 steps

end Session

end RSource
