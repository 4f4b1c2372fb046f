/-!
# UTF-8, one byte at a time

* `Utf8.Pending` — what stands between two bytes: the bits read of an unfinished character and
  the ranges its missing bytes must lie in.
* `Utf8.Pending.next` — one byte; `none` where no well-formed text has it.
* `Utf8.decode` — the characters of a well-formed text, or the length of its longest
  well-formed part.
* `Utf8.charCount` — the characters of any bytes, where each maximal ill-formed part, a
  truncated character included, counts as one.
-/

namespace RSource.Utf8

/-- A closed range of bytes. -/
structure ByteRange where
  lo : UInt8
  hi : UInt8
  deriving DecidableEq, Repr

/-- Whether the range holds the byte. -/
def ByteRange.holds (r : ByteRange) (b : UInt8) : Bool := decide (r.lo ≤ b) && decide (b ≤ r.hi)

/-- Any continuation byte. -/
def tail : ByteRange := ⟨0x80, 0xBF⟩

/-- An unfinished character: its bits so far and the ranges of its missing bytes. Nothing is
missing between characters. -/
structure Pending where
  bits : Nat
  missing : List ByteRange
  deriving DecidableEq, Repr

/-- Between characters. -/
def Pending.boundary : Pending := ⟨0, []⟩

/-- What a character's first byte leaves pending. The second byte's range is narrower after E0
and F0, which excludes overlong forms, after ED, which excludes surrogates, and after F4, which
excludes what lies above U+10FFFF. -/
def Pending.first (b : UInt8) : Option Pending :=
  if b ≤ 0x7F then some ⟨b.toNat, []⟩
  else if b < 0xC2 then none
  else if b ≤ 0xDF then some ⟨b.toNat - 0xC0, [tail]⟩
  else if b = 0xE0 then some ⟨0, [⟨0xA0, 0xBF⟩, tail]⟩
  else if b = 0xED then some ⟨0xD, [⟨0x80, 0x9F⟩, tail]⟩
  else if b ≤ 0xEF then some ⟨b.toNat - 0xE0, [tail, tail]⟩
  else if b = 0xF0 then some ⟨0, [⟨0x90, 0xBF⟩, tail, tail]⟩
  else if b ≤ 0xF3 then some ⟨b.toNat - 0xF0, [tail, tail, tail]⟩
  else if b = 0xF4 then some ⟨4, [⟨0x80, 0x8F⟩, tail, tail]⟩
  else none

/-- One byte: the next of an unfinished character, or the first of a new one. -/
def Pending.next (p : Pending) (b : UInt8) : Option Pending :=
  match p.missing with
  | [] => first b
  | r :: rest => if r.holds b then some ⟨p.bits * 64 + (b.toNat - 0x80), rest⟩ else none

/-- Reads bytes at offset `here`, the last character having ended at offset `ended`. -/
def decodeFrom (ended here : Nat) (p : Pending) : List UInt8 → Except Nat (List Char)
  | [] => if p.missing.isEmpty then .ok [] else .error ended
  | b :: bytes =>
      match p.next b with
      | none => .error ended
      | some q =>
          if q.missing.isEmpty then
            match decodeFrom (here + 1) (here + 1) .boundary bytes with
            | .error n => .error n
            | .ok cs => .ok (Char.ofNat q.bits :: cs)
          else decodeFrom ended (here + 1) q bytes

/-- The characters of a well-formed text; otherwise the length of its longest well-formed part
that ends between characters. -/
def decode (bytes : List UInt8) : Except Nat (List Char) := decodeFrom 0 0 .boundary bytes

/-- Characters counted so far, and the one that is unfinished. -/
structure Tally where
  finished : Nat
  pending : Pending
  deriving DecidableEq, Repr

/-- Counts a byte that does not go on with an unfinished character. -/
def Tally.start (n : Nat) (b : UInt8) : Tally :=
  match Pending.first b with
  | none => ⟨n + 1, .boundary⟩
  | some q => if q.missing.isEmpty then ⟨n + 1, .boundary⟩ else ⟨n, q⟩

/-- Counts one byte. A byte that does not fit ends an unfinished character, which counts as
one, and is then read as a first byte. -/
def Tally.step (t : Tally) (b : UInt8) : Tally :=
  match t.pending.missing with
  | [] => start t.finished b
  | _ :: _ =>
      match t.pending.next b with
      | none => start (t.finished + 1) b
      | some q => if q.missing.isEmpty then ⟨t.finished + 1, .boundary⟩ else ⟨t.finished, q⟩

/-- The count when the bytes end here: an unfinished character is one. -/
def Tally.total (t : Tally) : Nat :=
  if t.pending.missing.isEmpty then t.finished else t.finished + 1

/-- The number of characters, each maximal ill-formed part counting as one. -/
def charCount (bytes : List UInt8) : Nat := (bytes.foldl Tally.step ⟨0, .boundary⟩).total

end RSource.Utf8
