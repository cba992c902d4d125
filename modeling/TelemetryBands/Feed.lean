import TelemetryBands.Clock.TimeText
import TelemetryBands.Json.Reader
import TelemetryBands.Json.Record
import TelemetryBands.Sample

/-!
# Feeds of samples

A feed is a text with one document in each line: a sample of an endpoint, or a watermark for one
endpoint or for all. Blank lines mean nothing. A line that cannot be read spoils neither the lines
before it nor those behind it. `Feed.Reader` reads a feed call by call, `Feed.ofBytes` reads a whole
feed.
-/

namespace TelemetryBands

/-- What a line of a feed says. -/
inductive FeedItem where
  | sample (device point : String) (s : Sample)
  /-- A watermark for the endpoint that is named, or for all. -/
  | watermark (device point : Option String) (t : Millis)
  deriving DecidableEq, Repr

/-- What was read of a line, with the number of lines counted up to it. -/
structure FeedEntry where
  line : Nat
  item : Except Failure FeedItem

/-- What was read of a feed. -/
structure Feed where
  entries : List FeedEntry
  /-- The number of lines that are texts. -/
  lines : Nat

namespace FeedItem

/-- What a line says, with the time as it is written. -/
inductive Draft where
  | sample (device point : String) (time : WrittenTime) (value : SampleValue)
  | watermark (device point : Option String) (time : WrittenTime)
  deriving DecidableEq, Repr

/-- The watermark that a document holds. -/
def watermarkOfJson? (j : Json) : Option Draft :=
  (Json.Record.readObject? [.plain "watermark", .plain "device", .plain "endpoint"] j).bind fun r =>
  (r.required? "watermark" WrittenTime.ofJson?).bind fun time =>
  (r.optional? "device" Json.text?).bind fun device =>
  (r.optional? "endpoint" Json.text?).map fun point => .watermark device point time

/-- The members of a sample. -/
def sampleFields : List Json.Field :=
  [.plain "device", .plain "endpoint", .plain "timestamp", .plain "value"]

/-- The sample that a document holds. -/
def sampleOfJson? (j : Json) : Option Draft :=
  (Json.Record.readObject? sampleFields j).bind fun r =>
  (r.required? "device" Json.text?).bind fun device =>
  (r.required? "endpoint" Json.text?).bind fun point =>
  (r.required? "timestamp" WrittenTime.ofJson?).bind fun time =>
  (r.required? "value" SampleValue.ofJson?).map fun value => .sample device point time value

/-- What a document says: a watermark if it can be read as one, else a sample. -/
def ofJson? (j : Json) : Option Draft :=
  watermarkOfJson? j <|> sampleOfJson? j

/-- Reads the time that a line writes. -/
def ofDraft : Draft → Except Failure FeedItem
  | .sample device point time value => time.value.map fun t => .sample device point ⟨t, value⟩
  | .watermark device point time => time.value.map fun t => .watermark device point t

/-- The failure of a line that says nothing. -/
def unreadable (line : Nat) : Failure :=
  ⟨.parse, s!"line {line}: " ++ Failure.readerRemark⟩

/-- What the text of a line says. -/
def ofText (line : Nat) (cs : List Char) : Except Failure FeedItem :=
  match ((Json.ofChars? cs).filter (Json.isSound Json.depthLimit)).bind ofJson? with
  | some draft => ofDraft draft
  | none => .error (unreadable line)

end FeedItem

namespace Feed

/-- The byte that ends a line. -/
def lineEnd : UInt8 := 0x0A

/-- The lines of a text, without their ends; behind the last end there is no empty line. -/
def splitLines : List UInt8 → List (List UInt8)
  | [] => []
  | b :: bytes =>
    if b = lineEnd then [] :: splitLines bytes
    else
      match splitLines bytes with
      | [] => [[b]]
      | line :: lines => (b :: line) :: lines

/-- The text of bytes, if they are one. -/
def textOf? (bytes : List UInt8) : Option String :=
  String.fromUTF8? (ByteArray.mk bytes.toArray)

/-- The failure of a line whose bytes are no text. -/
def notText : Failure :=
  ⟨.parse, "read failed: " ++ Failure.readerRemark⟩

/-- The bytes up to the first end of a line and with it, and the bytes behind it. -/
def takeLine : List UInt8 → List UInt8 × List UInt8
  | [] => ([], [])
  | b :: bytes =>
    if b = lineEnd then ([b], bytes)
    else
      let (line, rest) := takeLine bytes
      (b :: line, rest)

/-- A line and the bytes behind it are all the bytes. -/
theorem takeLine_append (bytes : List UInt8) :
    (takeLine bytes).1 ++ (takeLine bytes).2 = bytes := by
  induction bytes with
  | nil => rfl
  | cons b bytes ih =>
    unfold takeLine
    split
    · rfl
    · exact congrArg (b :: ·) ih

/-- Fewer bytes are left behind what is read of them. -/
theorem length_takeLine_lt {bytes : List UInt8} (hread : (takeLine bytes).1 ≠ []) :
    (takeLine bytes).2.length < bytes.length := by
  have hlength := congrArg List.length (takeLine_append bytes)
  rw [List.length_append] at hlength
  have hpos := List.length_pos_iff.mpr hread
  omega

/-- A reader of a feed. -/
structure Reader where
  rest : List UInt8
  /-- The number of lines read so far that are texts. -/
  counted : Nat

/-- Reads up to the next line that is not blank and gives what it says, or nothing at the end. A
line whose bytes are no text is left behind, but not counted. -/
def Reader.next (r : Reader) : Reader × Option (Except Failure FeedItem) :=
  let rest := (takeLine r.rest).2
  if _ : (takeLine r.rest).1 = [] then (r, none)
  else
    match textOf? (takeLine r.rest).1 with
    | none => (⟨rest, r.counted⟩, some (.error notText))
    | some text =>
      let cs := Text.trim text.toList
      if cs.isEmpty then Reader.next ⟨rest, r.counted + 1⟩
      else (⟨rest, r.counted + 1⟩, some (FeedItem.ofText (r.counted + 1) cs))
termination_by r.rest.length
decreasing_by exact length_takeLine_lt ‹_›

/-- Reads lines after `count` others. A line whose bytes are no text is not counted. -/
def ofLines (count : Nat) : List (List UInt8) → Feed
  | [] => ⟨[], count⟩
  | bytes :: rest =>
    match textOf? bytes with
    | none =>
      let feed := ofLines count rest
      { feed with entries := ⟨count, .error notText⟩ :: feed.entries }
    | some text =>
      let cs := Text.trim text.toList
      let feed := ofLines (count + 1) rest
      if cs.isEmpty then feed
      else { feed with entries := ⟨count + 1, FeedItem.ofText (count + 1) cs⟩ :: feed.entries }

/-- Reads a feed. -/
def ofBytes (bytes : List UInt8) : Feed :=
  ofLines 0 (splitLines bytes)

/-- What was read of the lines, in their order. -/
def items (feed : Feed) : List (Except Failure FeedItem) :=
  feed.entries.map FeedEntry.item

/-- Reads a feed that is a text. -/
def ofText (text : String) : Feed :=
  ofBytes text.toUTF8.toList

end Feed

end TelemetryBands
