import TelemetryBands.Json.Writer
import TelemetryBands.Program.Command

/-!
# Descriptions of the formats

What the program reads and writes, described as a text for people or as a schema, whose members
stand in the order of their names.
-/

namespace TelemetryBands.Program.Formats

/-- What the program reads. -/
def inputText : String :=
  "Input: topic definitions and NDJSON sample stream\n"
    ++ "\n"
    ++ "Topic definition:\n"
    ++ "  - deviceName, endpointName: endpoint the topic watches\n"
    ++ "  - startTime, endTime: optional event-time range (ms or RFC 3339)\n"
    ++ "  - rules: ordered, non-overlapping bands, each with\n"
    ++ "    - state, lowerBound, upperBound, excludeRule (0-3)\n"
    ++ "    - windowSize, windowOffset (e.g. \"3,000ms\", \"5s\")\n"
    ++ "    - aggregation: LAST, AVG, SUM, MIN, MAX, COUNT, MATCHING(p)\n"
    ++ "    - repeatPub: \x7b duration \x7d or \x7b count, period \x7d\n"
    ++ "\n"
    ++ "Sample stream (one JSON object per line):\n"
    ++ "  \x7b\"device\": \"d1\", \"endpoint\": \"temp\", "
    ++ "\"timestamp\": 1000, \"value\": 15.2\x7d\n"
    ++ "  \x7b\"watermark\": 3000\x7d\n"
    ++ "  \x7b\"watermark\": 3000, \"device\": \"d1\", \"endpoint\": \"temp\"\x7d\n"

/-- What the program writes. -/
def outputText : String :=
  "Output: publish messages\n"
    ++ "\n"
    ++ "- time: close time of the evaluated window (ms)\n"
    ++ "- datas: array of \x7b device, point, value \x7d\n"
    ++ "  - device: tenant.portal.device qualified name\n"
    ++ "  - point: endpoint name\n"
    ++ "  - value: window aggregate (percentage for MATCHING)\n"

/-- The description of a side as a text. -/
def text : Side → String
  | .input => inputText
  | .output => outputText

/-- The schema of values of one type. -/
def ofType (type : String) : Json :=
  .record [("type", .ofText type)]

/-- The schema of values that are integers or strings. -/
def integerOrString : Json :=
  .record [("type", .array [.ofText "integer", .ofText "string"])]

/-- The schema of natural numbers up to a limit, if there is one. -/
def natural (limit : Option Nat) : Json :=
  .record
    ((limit.map fun limit => ("maximum", Json.ofInt limit)).toList
      ++ [("minimum", .ofInt 0), ("type", .ofText "integer")])

/-- The schema of objects of which some members must be there. -/
def object (properties : List (String × Json)) (required : List String) : Json :=
  .record
    [("properties", .record properties),
     ("required", .array (required.map Json.ofText)),
     ("type", .ofText "object")]

/-- The schema of a whole document with a title. -/
def document (title : String) (properties : List (String × Json)) (required : List String) : Json :=
  .record
    [("$schema", .ofText "https://json-schema.org/draft/2020-12/schema"),
     ("properties", .record properties),
     ("required", .array (required.map Json.ofText)),
     ("title", .ofText title),
     ("type", .ofText "object")]

/-- The schema of limits on repeats. -/
def repeats : Json :=
  .record
    [("properties", .record
      [("count", integerOrString), ("duration", integerOrString), ("period", integerOrString)]),
     ("type", .ofText "object")]

/-- The schema of a rule. -/
def rule : Json :=
  object
    [("aggregation", ofType "string"),
     ("excludeRule", natural (some 3)),
     ("lowerBound", ofType "number"),
     ("repeatPub", repeats),
     ("state", natural none),
     ("upperBound", ofType "number"),
     ("windowOffset", integerOrString),
     ("windowSize", integerOrString)]
    ["lowerBound", "upperBound"]

/-- The schema of a description of a topic. -/
def inputSchema : Json :=
  document "topic definition"
    [("deviceName", ofType "string"),
     ("endTime", integerOrString),
     ("endpointName", ofType "string"),
     ("rules", .record
       [("items", rule), ("minItems", .ofInt 1), ("type", .ofText "array")]),
     ("startTime", integerOrString)]
    ["deviceName", "endpointName", "rules"]

/-- The schema of a value in a message. -/
def dataPoint : Json :=
  object
    [("device", ofType "string"), ("point", ofType "string"), ("value", ofType "number")]
    ["device", "point", "value"]

/-- The schema of a message. -/
def outputSchema : Json :=
  document "publish message"
    [("datas", .record [("items", dataPoint), ("type", .ofText "array")]),
     ("time", ofType "integer")]
    ["time", "datas"]

/-- The description of a side as a schema. -/
def schema : Side → Json
  | .input => inputSchema
  | .output => outputSchema

end TelemetryBands.Program.Formats
