import RSource.Grammar.Expression

/-!
# Parsing a source

* `maxNesting` — the number of expressions that may be nested.
* `parseFeed`, `parseText`, `parse` — the program of a feed, a text and a source, or why it is
  refused; the first fault stands.
-/

namespace RSource

/-- The number of expressions that may be nested in one another. -/
def maxNesting : Nat := 64

/-- The statements of a program, with a bound on the number of items of any list in it. -/
def Grammar.program (bound : Nat) : Parse Program := do
  return ⟨← statements (expression bound maxNesting) .eof bound⟩

/-- The program that a feed holds. No list in it has more items than there are characters
left, so that many and one more steps suffice for each. -/
def parseFeed (s : Feed) : Except Error Program :=
  match (Grammar.program (s.reader.rest.length + 1)).run s with
  | .error e => .error e
  | .ok (p, _) => .ok p

/-- The program that a text holds. -/
def parseText (text : List Char) : Except Error Program := parseFeed (.ofText text)

/-- The program that a source holds. -/
def parse (bytes : List UInt8) : Except Error Program :=
  match decodeSource bytes with
  | .error e => .error (.lexical e)
  | .ok text => parseText text

end RSource
