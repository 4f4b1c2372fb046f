import RSource.Lexeme.Word

/-!
# Numeric constants

A numeric constant is a hexadecimal or decimal numeral, then `L` or `i` at most once.

* `mantissa`, `exponent`, `decimal` — the parts of a decimal numeral.
* `hexMark` — the mark that starts a hexadecimal numeral.
* `suffix` — the suffix and what it makes of the kind; `L` and `i` exclude each other.
* `number` — reads a numeric constant; a name character right after it is a fault, whose lexeme
  runs to the end of the name characters.
-/

namespace RSource.Lexeme

/-- A decimal digit of a numeral. -/
def isDigit (c : Char) : Bool := decide ('0' ≤ c) && decide (c ≤ '9')

/-- A hexadecimal digit of a numeral. -/
def isHexDigit (c : Char) : Bool :=
  isDigit c || (decide ('a' ≤ c) && decide (c ≤ 'f')) || (decide ('A' ≤ c) && decide (c ≤ 'F'))

/-- The text of a numeral, its kind so far and what follows. -/
structure Numeral where
  form : NumKind
  text : List Char
  rest : List Char
  deriving DecidableEq, Repr

/-- Digits, then at most one point with more digits. The point makes it a float. -/
def mantissa (cs : List Char) : Numeral :=
  match cs.dropWhile isDigit with
  | '.' :: rest =>
      ⟨.float, cs.takeWhile isDigit ++ '.' :: rest.takeWhile isDigit, rest.dropWhile isDigit⟩
  | rest => ⟨.integer, cs.takeWhile isDigit, rest⟩

/-- At most one sign, and what follows it. -/
def sign : List Char → List Char × List Char
  | '+' :: rest => (['+'], rest)
  | '-' :: rest => (['-'], rest)
  | rest => ([], rest)

/-- An exponent and what follows it, if a digit stands behind the mark and its sign. -/
def exponent : List Char → Option (List Char × List Char)
  | [] => none
  | mark :: cs =>
      if mark = 'e' ∨ mark = 'E' then
        let (signText, rest) := sign cs
        let digits := rest.takeWhile isDigit
        if digits.isEmpty then none
        else some (mark :: (signText ++ digits), rest.dropWhile isDigit)
      else none

/-- A mantissa, then at most one exponent. The exponent makes it a float. -/
def decimal (cs : List Char) : Numeral :=
  let m := mantissa cs
  match exponent m.rest with
  | none => m
  | some (text, rest) => ⟨.float, m.text ++ text, rest⟩

/-- What stands behind the mark of a hexadecimal numeral, if that is what starts here, with the
mark itself. -/
def hexMark : List Char → Option (List Char × List Char)
  | '0' :: x :: rest => if x = 'x' ∨ x = 'X' then some (['0', x], rest) else none
  | _ => none

/-- A hexadecimal or decimal numeral. A hexadecimal one has at least one digit. -/
def numeral (cs : List Char) : Except LexFault Numeral :=
  match hexMark cs with
  | none => .ok (decimal cs)
  | some (mark, rest) =>
      let digits := rest.takeWhile isHexDigit
      if digits.isEmpty then .error (.invalidNumber (String.ofList (mark ++ nameRun rest)))
      else .ok ⟨.hex, mark ++ digits, rest.dropWhile isHexDigit⟩

/-- A numeral with its suffix. An `L` leaves the kind as it is, an `i` makes it complex, and both
together are a fault. -/
def suffix (n : Numeral) : Except LexFault Numeral :=
  match n.rest with
  | 'L' :: 'i' :: _ | 'i' :: 'L' :: _ =>
      .error (.invalidNumber (String.ofList (n.text ++ nameRun n.rest)))
  | 'L' :: rest => .ok ⟨n.form, n.text ++ ['L'], rest⟩
  | 'i' :: rest => .ok ⟨.complex, n.text ++ ['i'], rest⟩
  | _ => .ok n

/-- A numeral that no name character follows: a name cannot start with a digit. -/
def endNumeral (n : Numeral) : Scanned :=
  if (nameRun n.rest).isEmpty then .ok ⟨.num n.form, n.text, n.rest⟩
  else .error (.invalidIdentifier (String.ofList (n.text ++ nameRun n.rest)))

/-- Reads a numeric constant. -/
def number (cs : List Char) : Scanned :=
  match numeral cs with
  | .error fault => .error fault
  | .ok n =>
      match suffix n with
      | .error fault => .error fault
      | .ok n => endNumeral n

end RSource.Lexeme
