import TelemetryBands.Program.Arguments

/-!
# Commands

What the program can be asked for: to run topics over a feed, to validate definitions of topics, to
check the environment, or to describe the formats. `Command.read` reads a command line.
-/

namespace TelemetryBands.Program

/-- How the messages of a run are written. -/
inductive OutputFormat where
  /-- Each message on a line. -/
  | lines
  /-- One array without gaps. -/
  | array
  /-- One array in lines. -/
  | pretty
  deriving DecidableEq, Repr

/-- The output formats under their names. -/
def OutputFormat.named : List (String × OutputFormat) :=
  [("ndjson", .lines), ("json", .array), ("json-pretty", .pretty)]

/-- The output format of a name. -/
def OutputFormat.ofName? (name : String) : Option OutputFormat :=
  named.lookup name

/-- The two sides of which the formats can be described. -/
inductive Side where
  | input
  | output
  deriving DecidableEq, Repr

/-- The sides under their names. -/
def Side.named : List (String × Side) :=
  [("input", .input), ("output", .output)]

/-- The side of a name. -/
def Side.ofName? (name : String) : Option Side :=
  named.lookup name

/-- What a run works with. -/
structure RunOptions where
  topics : String
  input : String
  output : String
  config : Option String
  /-- How far watermarks trail the latest sample, in place of what the settings say. -/
  lateness : Option Millis
  /-- The watermark that all topics reach behind the feed. -/
  finalWatermark : Option Millis
  format : OutputFormat
  loadState : Option String
  saveState : Option String
  deriving DecidableEq, Repr

/-- What the program is asked for. -/
inductive Command where
  | run (options : RunOptions)
  | validate (input : String) (json : Bool)
  | doctor (config topics : Option String) (json : Bool)
  | schema (side : Side) (json : Bool)
  deriving DecidableEq, Repr

/-- The name that stands for the standard input or the standard output. -/
def standardName : String := "-"

/-- The switch that asks for help. -/
def helpSwitch : Switch :=
  ⟨"help", some 'h', .help⟩

/-- The switch that sets what is logged. -/
def logSwitch : Switch :=
  ⟨"log-level", none, .value .text⟩

/-- The switches before the name of a command. -/
def commonGrammar : Grammar where
  switches := [logSwitch, helpSwitch, ⟨"version", some 'V', .version⟩]
  operands := []

/-- The grammar of a command with some switches of its own. -/
def grammarOf (switches : List Switch) (operands : List ValueKind) : Grammar where
  switches := switches ++ [logSwitch, helpSwitch]
  operands

namespace RunOptions

/-- The words behind `run`. -/
def grammar : Grammar :=
  grammarOf
    [⟨"topics", some 't', .value .path⟩,
     ⟨"input", some 'i', .value .path⟩,
     ⟨"output", some 'o', .value .path⟩,
     ⟨"config", none, .value .path⟩,
     ⟨"event-time-lateness", none, .value .time⟩,
     ⟨"final-watermark", none, .value .time⟩,
     ⟨"output-format", none, .value (.oneOf (OutputFormat.named.map Prod.fst))⟩,
     ⟨"load-state", none, .value .path⟩,
     ⟨"save-state", none, .value .path⟩] []

/-- The options that were given; only the topics must be among them. -/
def ofReading? (r : Reading) : Option RunOptions :=
  (r.value? "topics").map fun topics =>
    { topics
      input := (r.value? "input").getD standardName
      output := (r.value? "output").getD standardName
      config := r.value? "config"
      lateness := (r.value? "event-time-lateness").bind time?
      finalWatermark := (r.value? "final-watermark").bind time?
      format := ((r.value? "output-format").bind OutputFormat.ofName?).getD .lines
      loadState := r.value? "load-state"
      saveState := r.value? "save-state" }

end RunOptions

namespace Command

/-- The switch that asks for a report as a document. -/
def jsonSwitch : Switch :=
  ⟨"json", none, .flag⟩

/-- The words behind `validate`. -/
def validateGrammar : Grammar :=
  grammarOf [⟨"input", some 'i', .value .path⟩, jsonSwitch] []

/-- The words behind `doctor`. -/
def doctorGrammar : Grammar :=
  grammarOf [⟨"config", none, .value .path⟩, ⟨"topics", none, .value .path⟩, jsonSwitch] []

/-- The words behind `schema`. -/
def schemaGrammar : Grammar :=
  grammarOf [⟨"json-schema", none, .flag⟩] [.oneOf (Side.named.map Prod.fst)]

/-- The validation that was asked for; its input must be given. -/
def validateOfReading? (r : Reading) : Option Command :=
  (r.value? "input").map fun input => .validate input (r.has "json")

/-- The check of the environment that was asked for. -/
def doctorOfReading (r : Reading) : Command :=
  .doctor (r.value? "config") (r.value? "topics") (r.has "json")

/-- The description that was asked for; its side must be given. -/
def schemaOfReading? (r : Reading) : Option Command :=
  (r.operands.head?.bind Side.ofName?).map fun side => .schema side (r.has "json-schema")

/-- The names of the commands. -/
def names : List String :=
  ["run", "validate", "doctor", "schema", "help"]

/-- Reads the words behind the name of a command. -/
def readWith (g : Grammar) (ofReading? : Reading → Option Command) (words : List String) :
    Except Stop Command :=
  (g.read words).bind fun r =>
    match ofReading? r with
    | some command => .ok command
    | none => .error .misuse

/-- Why `help` does not lead to a command: it is help, unless it is asked about what is no
command. -/
def helpAbout : List String → Stop
  | [] => .help
  | [name] => if names.contains name then .help else .misuse
  | _ => .misuse

/-- Reads a command from its name and the words behind it. -/
def ofName (name : String) (words : List String) : Except Stop Command :=
  match name with
  | "run" => readWith RunOptions.grammar (fun r => (RunOptions.ofReading? r).map .run) words
  | "validate" => readWith validateGrammar validateOfReading? words
  | "doctor" => readWith doctorGrammar (fun r => some (doctorOfReading r)) words
  | "schema" => readWith schemaGrammar schemaOfReading? words
  | "help" => .error (helpAbout words)
  | _ => .error .misuse

/-- Reads a command line. -/
def read (words : List String) : Except Stop Command :=
  (commonGrammar.readUpToName .empty words).bind fun (name, rest) => ofName name rest

end Command

end TelemetryBands.Program
