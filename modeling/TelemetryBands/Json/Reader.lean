import TelemetryBands.Json.Token

/-!
# Reading documents

A row of tokens is one document if its brackets, commas and colons stand where they should. The
reader goes over the tokens once, with the containers that are still open held in a list of frames,
the innermost first.
-/

namespace TelemetryBands.Json

/-- A container that is still open, with what it holds so far, the last first. -/
inductive Frame where
  | items (done : List Json)
  | members (done : List (Quoted × Json)) (name : Quoted)

/-- What must come next. -/
inductive Builder where
  /-- A value. -/
  | value (frames : List Frame)
  /-- The first item of an array, or its end. -/
  | firstItem (frames : List Frame)
  /-- A comma or the end of an array. -/
  | afterItem (done : List Json) (frames : List Frame)
  /-- The first name of an object, or its end. -/
  | firstName (frames : List Frame)
  /-- Another name of an object. -/
  | nextName (done : List (Quoted × Json)) (frames : List Frame)
  /-- A colon. -/
  | colon (done : List (Quoted × Json)) (name : Quoted) (frames : List Frame)
  /-- A comma or the end of an object. -/
  | afterMember (done : List (Quoted × Json)) (frames : List Frame)
  /-- Nothing. -/
  | complete (document : Json)

namespace Builder

/-- Hands a finished value to the innermost open container. -/
def give (v : Json) : List Frame → Builder
  | [] => .complete v
  | .items done :: frames => .afterItem (v :: done) frames
  | .members done name :: frames => .afterMember ((name, v) :: done) frames

/-- Starts a value with a token. -/
def begin? (frames : List Frame) : Token → Option Builder
  | .null => some (give .null frames)
  | .bool b => some (give (.bool b) frames)
  | .numeral n => some (give (.number n) frames)
  | .quoted q => some (give (.string q) frames)
  | .openArray => some (.firstItem frames)
  | .openObject => some (.firstName frames)
  | _ => none

/-- Reads one more token. -/
def step : Builder → Token → Option Builder
  | .value frames, token => begin? frames token
  | .firstItem frames, .closeArray => some (give (.array []) frames)
  | .firstItem frames, token => begin? (.items [] :: frames) token
  | .afterItem done frames, .comma => some (.value (.items done :: frames))
  | .afterItem done frames, .closeArray => some (give (.array done.reverse) frames)
  | .firstName frames, .closeObject => some (give (.object []) frames)
  | .firstName frames, .quoted name => some (.colon [] name frames)
  | .nextName done frames, .quoted name => some (.colon done name frames)
  | .colon done name frames, .colon => some (.value (.members done name :: frames))
  | .afterMember done frames, .comma => some (.nextName done frames)
  | .afterMember done frames, .closeObject => some (give (.object done.reverse) frames)
  | _, _ => none

/-- The document, once it is complete. -/
def document? : Builder → Option Json
  | .complete document => some document
  | _ => none

end Builder

/-- The document that a row of tokens is. -/
def ofTokens? (tokens : List Token) : Option Json :=
  (tokens.foldlM Builder.step (.value [])).bind Builder.document?

/-- The document that a text is, with nothing but gaps around it. -/
def ofChars? (cs : List Char) : Option Json :=
  (Token.scan? cs).bind ofTokens?

/-- The document that a string is. -/
def parse? (s : String) : Option Json :=
  ofChars? s.toList

/-- The document that a string is, if all of it has a value. -/
def parseSound? (s : String) : Option Json :=
  (parse? s).filter (isSound depthLimit)

end TelemetryBands.Json
