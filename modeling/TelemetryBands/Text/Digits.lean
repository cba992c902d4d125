/-!
# Decimal digits and integers

Natural numbers and integers as runs of decimal digits: writing them without needless zeros, and
reading them back. `Nat` and `Int` carry no bound here; readers of bounded integers refuse what does
not fit.
-/

namespace TelemetryBands.Text

/-- The first natural number that does not fit 32 bits. -/
def limit32 : Nat := 4294967296

/-- The first natural number that does not fit 64 bits. -/
def limit64 : Nat := 18446744073709551616

/-- Whether a character is an ASCII decimal digit. -/
def isDigit (c : Char) : Bool :=
  c.isDigit

/-- Whether a text is a non-empty run of digits. -/
def isDigits (cs : List Char) : Bool :=
  !cs.isEmpty && cs.all isDigit

/-- The decimal digits of a natural number, without needless zeros. -/
def digits (n : Nat) : List Char :=
  Nat.toDigits 10 n

/-- The natural number that a run of digits denotes. -/
def ofDigits (cs : List Char) : Nat :=
  Nat.ofDigitChars 10 cs 0

/-- An integer in decimal, with a minus sign when it is negative. -/
def integer : Int → List Char
  | .ofNat n => digits n
  | .negSucc n => '-' :: digits (n + 1)

/-- Reads an optional sign and at least one digit, and nothing else. -/
def integer? : List Char → Option Int
  | '+' :: cs => if isDigits cs then some (ofDigits cs) else none
  | '-' :: cs => if isDigits cs then some (-(ofDigits cs : Int)) else none
  | cs => if isDigits cs then some (ofDigits cs) else none

/-- Reads an optional plus sign and at least one digit, for a number below `limit`. -/
def natural? (limit : Nat) (cs : List Char) : Option Nat :=
  let body := match cs with
    | '+' :: rest => rest
    | _ => cs
  if isDigits body && ofDigits body < limit then some (ofDigits body) else none

/-- The value of a hexadecimal digit in either letter case. -/
def hexValue? (c : Char) : Option Nat :=
  if '0' ≤ c ∧ c ≤ '9' then some (c.toNat - '0'.toNat)
  else if 'a' ≤ c ∧ c ≤ 'f' then some (c.toNat - 'a'.toNat + 10)
  else if 'A' ≤ c ∧ c ≤ 'F' then some (c.toNat - 'A'.toNat + 10)
  else none

/-- The number that a run of hexadecimal digits denotes. -/
def ofHexDigits? (cs : List Char) : Option Nat :=
  cs.foldlM (fun value c => (hexValue? c).map (16 * value + ·)) 0

/-- The lower-case hexadecimal digit of a number below sixteen. -/
def hexDigit (n : Nat) : Char :=
  Nat.digitChar (n % 16)

/-- The `width` lowest hexadecimal digits of a number, in lower case. -/
def hexDigits : (width : Nat) → Nat → List Char
  | 0, _ => []
  | width + 1, n => hexDigits width (n / 16) ++ [hexDigit n]

end TelemetryBands.Text
