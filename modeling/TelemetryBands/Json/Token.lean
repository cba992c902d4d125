import TelemetryBands.Json.Tree

/-!
# Tokens of a document

A document is a row of tokens with gaps between them. `Token.scan?` takes a text apart into tokens
in one pass over its characters: the scanner keeps the tokens finished so far and what it has of the
current one.
-/

namespace TelemetryBands.Json

/-- A token of a document. -/
inductive Token where
  | openArray
  | closeArray
  | openObject
  | closeObject
  | comma
  | colon
  | null
  | bool (b : Bool)
  | numeral (n : Decimal.Numeral)
  | quoted (q : Quoted)
  deriving DecidableEq, Repr

/-- Whether a character may stand between tokens. -/
def isGap (c : Char) : Bool :=
  c == ' ' || c == '\n' || c == '\t' || c == '\r'

/-- Whether a character can stand in a numeral. -/
def isNumeralChar (c : Char) : Bool :=
  Text.isDigit c || c == '-' || c == '+' || c == '.' || c == 'e' || c == 'E'

/-- Whether a character can start a numeral. -/
def startsNumeral (c : Char) : Bool :=
  Text.isDigit c || c == '-'

/-- The token that a single character is. -/
def Token.ofChar? : Char → Option Token
  | '[' => some .openArray
  | ']' => some .closeArray
  | '{' => some .openObject
  | '}' => some .closeObject
  | ',' => some .comma
  | ':' => some .colon
  | _ => none

/-- The token that a word is. -/
def Token.ofWord? (cs : List Char) : Option Token :=
  if cs = ['n', 'u', 'l', 'l'] then some .null
  else if cs = ['t', 'r', 'u', 'e'] then some (.bool true)
  else if cs = ['f', 'a', 'l', 's', 'e'] then some (.bool false)
  else none

/-- The text of a token. -/
def Token.chars : Token → List Char
  | .openArray => ['[']
  | .closeArray => [']']
  | .openObject => ['{']
  | .closeObject => ['}']
  | .comma => [',']
  | .colon => [':']
  | .null => ['n', 'u', 'l', 'l']
  | .bool true => ['t', 'r', 'u', 'e']
  | .bool false => ['f', 'a', 'l', 's', 'e']
  | .numeral n => n.chars
  | .quoted q => '"' :: q.body ++ ['"']

/-- What the scanner has of the current token, the last character first. -/
inductive Scanner.Mode where
  | between
  | word (seen : List Char)
  | numeral (seen : List Char)
  | quoted (seen : List Char)
  /-- Behind a backslash inside quotes. -/
  | escaped (seen : List Char)
  deriving DecidableEq, Repr

/-- A text read up to some place: the finished tokens, the last first, and the current one. -/
structure Scanner where
  finished : List Token
  mode : Scanner.Mode
  deriving DecidableEq, Repr

namespace Scanner

/-- The scanner before the first character. -/
def start : Scanner :=
  ⟨[], .between⟩

/-- Starts a token, or passes a gap, with a character. -/
def begin? (finished : List Token) (c : Char) : Option Scanner :=
  if isGap c then some ⟨finished, .between⟩
  else if c = '"' then some ⟨finished, .quoted []⟩
  else if startsNumeral c then some ⟨finished, .numeral [c]⟩
  else if c.isLower then some ⟨finished, .word [c]⟩
  else (Token.ofChar? c).map fun token => ⟨token :: finished, .between⟩

/-- Finishes a word or a numeral; a string ends only with its quote. -/
def finish? (s : Scanner) : Option (List Token) :=
  match s.mode with
  | .between => some s.finished
  | .word seen => (Token.ofWord? seen.reverse).map (· :: s.finished)
  | .numeral seen => (Decimal.Numeral.ofChars? seen.reverse).map fun n => .numeral n :: s.finished
  | .quoted _ | .escaped _ => none

/-- Reads one more character. -/
def step (s : Scanner) (c : Char) : Option Scanner :=
  match s.mode with
  | .between => begin? s.finished c
  | .word seen =>
    if c.isLower then some ⟨s.finished, .word (c :: seen)⟩
    else s.finish?.bind fun finished => begin? finished c
  | .numeral seen =>
    if isNumeralChar c then some ⟨s.finished, .numeral (c :: seen)⟩
    else s.finish?.bind fun finished => begin? finished c
  | .quoted seen =>
    if c = '"' then
      if Quoted.isProper seen.reverse then some ⟨.quoted ⟨seen.reverse⟩ :: s.finished, .between⟩
      else none
    else if c = '\\' then some ⟨s.finished, .escaped (c :: seen)⟩
    else some ⟨s.finished, .quoted (c :: seen)⟩
  | .escaped seen => some ⟨s.finished, .quoted (c :: seen)⟩

end Scanner

/-- The tokens of a text. -/
def Token.scan? (cs : List Char) : Option (List Token) :=
  ((cs.foldlM Scanner.step Scanner.start).bind Scanner.finish?).map List.reverse

end TelemetryBands.Json
