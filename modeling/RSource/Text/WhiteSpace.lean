import RSource.Text.Ranges

/-!
# White space

* `isWhiteSpace` — the Unicode property White_Space (version 17.0), by its table.
* `isBlank` — white space that stays on its line: a line break is a token, not a blank.
-/

namespace RSource

/-- The code points with the property White_Space. -/
def whiteSpaceRanges : List (Nat × Nat) :=
  [(0x9, 0xD), (0x20, 0x20), (0x85, 0x85), (0xA0, 0xA0), (0x1680, 0x1680), (0x2000, 0x200A),
   (0x2028, 0x2029), (0x202F, 0x202F), (0x205F, 0x205F), (0x3000, 0x3000)]

theorem whiteSpaceRanges_isAscending : isAscending 0 whiteSpaceRanges = true := by decide +kernel

/-- Whether the character has the property White_Space. -/
def isWhiteSpace (c : Char) : Bool := inRanges c.toNat whiteSpaceRanges

/-- White space other than the line break: form feed and no-break space are blanks. -/
def isBlank (c : Char) : Bool := c != '\n' && isWhiteSpace c

end RSource
