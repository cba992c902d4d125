import TelemetryBands.Text.Digits

/-!
# Quoted strings

The characters between the quotes of a document's string, as they are written there. Whether they
are written properly (`isProper`) and what they stand for (`decode?`) are two questions: an escape
of half a surrogate pair is written properly and stands for nothing.
-/

namespace TelemetryBands

/-- A string of a document, as the characters between its quotes. -/
structure Quoted where
  body : List Char
  deriving DecidableEq, Repr

namespace Quoted

/-- The characters that a backslash with one letter stands for. -/
def shortEscapes : List (Char × Char) :=
  [('"', '"'), ('\\', '\\'), ('/', '/'), ('b', '\x08'), ('f', '\x0c'), ('n', '\n'), ('r', '\r'),
   ('t', '\t')]

/-- Whether a character is a hexadecimal digit. -/
def isHex (c : Char) : Bool :=
  (Text.hexValue? c).isSome

/-- Whether the characters between two quotes are written properly: no control character, and behind
every backslash either one of the known letters or `u` with four hexadecimal digits. -/
def isProper : List Char → Bool
  | [] => true
  | '\\' :: 'u' :: a :: b :: c :: d :: rest =>
    isHex a && isHex b && isHex c && isHex d && isProper rest
  | '\\' :: c :: rest => (shortEscapes.lookup c).isSome && isProper rest
  | c :: rest => c != '\\' && c != '"' && ' ' ≤ c && isProper rest

/-- A character, or a 16-bit unit that an escape names. -/
inductive Piece where
  | char (c : Char)
  | unit (n : Nat)
  deriving DecidableEq, Repr

/-- The characters and units that properly written characters name. -/
def pieces : List Char → List Piece
  | [] => []
  | '\\' :: 'u' :: a :: b :: c :: d :: rest =>
    .unit ((Text.ofHexDigits? [a, b, c, d]).getD 0) :: pieces rest
  | '\\' :: c :: rest => .char ((shortEscapes.lookup c).getD c) :: pieces rest
  | c :: rest => .char c :: pieces rest

/-- Joins units into characters: a high surrogate must be followed by a low one, and a low one must
follow a high one. -/
def join? : List Piece → Option (List Char)
  | [] => some []
  | .char c :: rest => (join? rest).map (c :: ·)
  | .unit high :: .unit low :: rest =>
    if 0xD800 ≤ high ∧ high < 0xDC00 then
      if 0xDC00 ≤ low ∧ low < 0xE000 then
        (join? rest).map (Char.ofNat (0x10000 + (high - 0xD800) * 0x400 + (low - 0xDC00)) :: ·)
      else none
    else if 0xDC00 ≤ high ∧ high < 0xE000 then none
    else (join? (.unit low :: rest)).map (Char.ofNat high :: ·)
  | .unit n :: rest =>
    if 0xD800 ≤ n ∧ n < 0xE000 then none else (join? rest).map (Char.ofNat n :: ·)

/-- The text that a quoted string stands for. -/
def decode? (q : Quoted) : Option (List Char) :=
  join? (pieces q.body)

/-- The text that a quoted string stands for, as a string. -/
def text? (q : Quoted) : Option String :=
  q.decode?.map String.ofList

/-- A character as it is written between quotes: quotes, backslashes and control characters are
escaped, and nothing else is. -/
def escape (c : Char) : List Char :=
  if c = '"' then ['\\', '"']
  else if c = '\\' then ['\\', '\\']
  else if c = '\x08' then ['\\', 'b']
  else if c = '\x0c' then ['\\', 'f']
  else if c = '\n' then ['\\', 'n']
  else if c = '\r' then ['\\', 'r']
  else if c = '\t' then ['\\', 't']
  else if c < ' ' then '\\' :: 'u' :: Text.hexDigits 4 c.toNat
  else [c]

/-- A text as it is written between quotes. -/
def encode (cs : List Char) : Quoted :=
  ⟨cs.flatMap escape⟩

/-- A string as it is written between quotes. -/
def ofText (s : String) : Quoted :=
  encode s.toList

end Quoted

end TelemetryBands
