import TelemetryBands.Clock.Millis
import TelemetryBands.Text.Digits

/-!
# Words of a command line

A command line consists of switches, some of which have a value, and of operands. A value stands in
the word of its switch or in the next word, where it must not begin with a hyphen. Words are read
from left to right; the first that asks for help or for the version, or that does not fit, ends the
reading.
-/

namespace TelemetryBands.Program

/-- What a value on the command line must be. -/
inductive ValueKind where
  | text
  /-- The name of a file, which is not empty. -/
  | path
  | time
  | oneOf (names : List String)
  deriving DecidableEq, Repr

/-- The number of milliseconds that a value denotes. -/
def time? (value : String) : Option Millis :=
  (Text.integer? value.toList).bind Millis.ofInt?

/-- Whether a value is of a kind. -/
def ValueKind.accepts (value : String) : ValueKind → Bool
  | .text => true
  | .path => !value.isEmpty
  | .time => (time? value).isSome
  | .oneOf names => names.contains value

/-- What a switch does. -/
inductive Role where
  | flag
  | value (kind : ValueKind)
  | help
  | version
  deriving DecidableEq, Repr

/-- A switch, written with two hyphens and its name, or with one hyphen and its letter. -/
structure Switch where
  name : String
  letter : Option Char
  role : Role
  deriving DecidableEq, Repr

/-- The switches and operands that fit at some place of a command line. -/
structure Grammar where
  switches : List Switch
  operands : List ValueKind
  deriving DecidableEq, Repr

/-- Why reading ends before there is a command. -/
inductive Stop where
  | misuse
  | help
  | version
  deriving DecidableEq, Repr

/-- The shapes of words. -/
inductive Word where
  /-- Two hyphens, behind which all words are operands. -/
  | close
  | long (name : String) (value : Option String)
  | short (letters : List Char)
  | plain
  deriving DecidableEq, Repr

/-- The shape of a word. -/
def Word.ofChars : List Char → Word
  | ['-', '-'] => .close
  | '-' :: '-' :: cs =>
    let value := match cs.dropWhile (· ≠ '=') with
      | [] => none
      | _ :: value => some (String.ofList value)
    .long (String.ofList (cs.takeWhile (· ≠ '='))) value
  | '-' :: c :: cs => .short (c :: cs)
  | _ => .plain

/-- What was read of a command line. -/
structure Reading where
  /-- The switches that were given, with their values; a flag has the empty value. -/
  values : List (String × String)
  operands : List String
  /-- The switch whose value must be the next word. -/
  pending : Option (String × ValueKind)
  closed : Bool
  deriving DecidableEq, Repr

namespace Reading

/-- Nothing was read. -/
def empty : Reading :=
  ⟨[], [], none, false⟩

/-- Whether a switch was given. -/
def has (r : Reading) (name : String) : Bool :=
  (r.values.lookup name).isSome

/-- The value of a switch. -/
def value? (r : Reading) (name : String) : Option String :=
  r.values.lookup name

/-- Takes down a switch, which must not have been given before. -/
def give (r : Reading) (name value : String) : Except Stop Reading :=
  if r.has name then .error .misuse
  else .ok { r with values := r.values ++ [(name, value)], pending := none }

/-- Takes down a switch with a value. -/
def giveValue (r : Reading) (name : String) (kind : ValueKind) (value : String) :
    Except Stop Reading :=
  if kind.accepts value then r.give name value else .error .misuse

/-- Ends the reading: no value may be missing. -/
def finish (r : Reading) : Except Stop Reading :=
  if r.pending.isSome then .error .misuse else .ok r

end Reading

namespace Grammar

/-- Reads the letters of a word with one hyphen: flags, of which the last may be a switch with a
value. -/
def readLetters (g : Grammar) (r : Reading) : List Char → Except Stop Reading
  | [] => .ok r
  | c :: cs =>
    match g.switches.find? fun s => s.letter == some c with
    | none => .error .misuse
    | some s =>
      match s.role with
      | .help => .error .help
      | .version => .error .version
      | .flag => (r.give s.name "").bind fun r => g.readLetters r cs
      | .value kind =>
        match cs with
        | [] => .ok { r with pending := some (s.name, kind) }
        | '=' :: value => r.giveValue s.name kind (String.ofList value)
        | value => r.giveValue s.name kind (String.ofList value)

/-- Reads a word with two hyphens. -/
def readLong (g : Grammar) (r : Reading) (name : String) (value : Option String) :
    Except Stop Reading :=
  match g.switches.find? fun s => s.name == name with
  | none => .error .misuse
  | some s =>
    match s.role, value with
    | .help, none => .error .help
    | .version, none => .error .version
    | .flag, none => r.give s.name ""
    | .value kind, none => .ok { r with pending := some (s.name, kind) }
    | .value kind, some value => r.giveValue s.name kind value
    | _, some _ => .error .misuse

/-- Takes down an operand. -/
def readOperand (g : Grammar) (r : Reading) (word : String) : Except Stop Reading :=
  match g.operands[r.operands.length]? with
  | none => .error .misuse
  | some kind =>
    if kind.accepts word then .ok { r with operands := r.operands ++ [word] } else .error .misuse

/-- Reads a word. A switch that waits for its value takes a plain word and bears no other. -/
def readWord (g : Grammar) (r : Reading) (word : String) : Except Stop Reading :=
  if r.closed then g.readOperand r word
  else
    match Word.ofChars word.toList, r.pending with
    | .plain, some (name, kind) => r.giveValue name kind word
    | .plain, none => g.readOperand r word
    | _, some _ => .error .misuse
    | .close, none => .ok { r with closed := true }
    | .long name value, none => g.readLong r name value
    | .short letters, none => g.readLetters r letters

/-- Reads all words. -/
def read (g : Grammar) (words : List String) : Except Stop Reading :=
  (words.foldlM g.readWord .empty).bind Reading.finish

/-- Reads the words before the name of a command, and gives the name and the words behind it. -/
def readUpToName (g : Grammar) (r : Reading) : List String → Except Stop (String × List String)
  | [] => .error .misuse
  | word :: words =>
    if !r.closed && r.pending.isNone && Word.ofChars word.toList == .plain then .ok (word, words)
    else (g.readWord r word).bind fun r => g.readUpToName r words

end Grammar

end TelemetryBands.Program
