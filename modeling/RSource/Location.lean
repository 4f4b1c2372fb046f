import RSource.Text.Utf8

/-!
# Places in a source

* `Location` — line and column, both counted from one in 32 bits; a column is a character.
* `Location.step` — the place after one more character: only a line feed starts a line.
* `Location.ofOffset` — the place of a byte offset, counted from the start of any bytes.
* `Cursor` — a byte offset with its place, from which scanning can go on.
-/

namespace RSource

/-- Line and column of the first character of something, both counted from one. -/
structure Location where
  line : UInt32
  col : UInt32
  deriving DecidableEq, Repr

namespace Location

/-- The place of the first character. -/
def start : Location := ⟨1, 1⟩

/-- The place after the character `c`: a line feed starts a line, all else is one column. -/
def step (l : Location) (c : Char) : Location :=
  if c = '\n' then ⟨l.line + 1, 1⟩ else ⟨l.line, l.col + 1⟩

/-- The place after all of `cs`. -/
def advance (l : Location) (cs : List Char) : Location := cs.foldl step l

/-- The bytes after the last line feed. -/
def lastLine (bytes : List UInt8) : List UInt8 :=
  (bytes.reverse.takeWhile (· != 10)).reverse

/-- The place after all of `bytes`. -/
def ofBytes (bytes : List UInt8) : Location :=
  ⟨UInt32.ofNat (bytes.count 10) + 1, UInt32.ofNat (Utf8.charCount (lastLine bytes)) + 1⟩

/-- The place of the byte at `offset`. An offset past the end is the end. -/
def ofOffset (bytes : List UInt8) (offset : Nat) : Location := ofBytes (bytes.take offset)

/-- Written as line and column with a colon between. -/
def text (l : Location) : String :=
  Nat.repr l.line.toNat ++ ":" ++ Nat.repr l.col.toNat

end Location

/-- A byte offset and its place. -/
structure Cursor where
  offset : Nat
  loc : Location
  deriving DecidableEq, Repr

namespace Cursor

/-- Before the first character. -/
def start : Cursor := ⟨0, .start⟩

/-- Past the character `c`. -/
def step (k : Cursor) (c : Char) : Cursor := ⟨k.offset + c.utf8Size, k.loc.step c⟩

/-- Past all of `cs`. -/
def advance (k : Cursor) (cs : List Char) : Cursor := cs.foldl step k

@[simp] theorem advance_nil (k : Cursor) : k.advance [] = k := rfl

@[simp] theorem advance_append (k : Cursor) (xs ys : List Char) :
    k.advance (xs ++ ys) = (k.advance xs).advance ys := List.foldl_append

/-- The place a cursor reaches is that of the walk over the characters. -/
theorem loc_advance (k : Cursor) (cs : List Char) : (k.advance cs).loc = k.loc.advance cs := by
  induction cs generalizing k with
  | nil => rfl
  | cons c cs ih => exact ih (k.step c)

/-- The offset grows by the bytes of the characters passed. -/
theorem offset_advance (k : Cursor) (cs : List Char) :
    (k.advance cs).offset = k.offset + (cs.flatMap String.utf8EncodeChar).length := by
  induction cs generalizing k with
  | nil => simp [advance]
  | cons c cs ih =>
      have h : (k.advance (c :: cs)).offset = ((k.step c).advance cs).offset := rfl
      rw [h, ih]
      simp only [step, List.flatMap_cons, List.length_append, String.length_utf8EncodeChar]
      omega

end Cursor

end RSource
