import RSource.Text.DefaultIgnorable
import RSource.Text.GraphemeExtend
import RSource.Text.Unprintable

/-!
# A character between quotes

* `needsEscape` — the characters that would not show, or would join what stands before them.
* `quotedChar` — the form in which a message shows a single character: in single quotes, with
  those characters and the quote itself escaped.
-/

namespace RSource

/-- The halfwidth voicing marks of katakana extend a grapheme, but each stands in a cell of its own
beside what it follows. -/
def isHalfwidthVoicing (c : Char) : Bool := decide (0xFF9E ≤ c.toNat) && decide (c.toNat ≤ 0xFF9F)

/-- Whether the character is drawn into the one before it, so that between quotes it would join the
opening quote. -/
def joinsBefore (c : Char) : Bool := isGraphemeExtend c && !isHalfwidthVoicing c

/-- Whether the character would not show between quotes as itself. -/
def needsEscape (c : Char) : Bool := joinsBefore c || isDefaultIgnorable c || isUnprintable c

/-- The escape by code point: lower-case hexadecimal digits without leading zeros. -/
def codePointEscape (c : Char) : String :=
  "\\u\x7b" ++ String.ofList (Nat.toDigits 16 c.toNat) ++ "\x7d"

/-- One character as it is written between single quotes. A double quote needs no escape there. -/
def escapedChar (c : Char) : String :=
  if c = '\x00' then "\\0"
  else if c = '\t' then "\\t"
  else if c = '\r' then "\\r"
  else if c = '\n' then "\\n"
  else if c = '\x27' then "\\'"
  else if c = '\\' then "\\\\"
  else if needsEscape c then codePointEscape c
  else c.toString

/-- A character as a message shows it. -/
def quotedChar (c : Char) : String := "'" ++ escapedChar c ++ "'"

end RSource
