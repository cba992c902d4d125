import TelemetryBands.Message
import TelemetryBands.Program.Definitions
import TelemetryBands.Program.Outcome
import TelemetryBands.Registry.Traffic

/-!
# Runs of topics over a feed

A run creates the topics of the definitions, restores what was kept of them, takes in the feed,
moves the watermarks to the end, and then writes what is to be kept of the topics and the messages.
-/

namespace TelemetryBands.Program

/-- The answer of an operation in which a failure is a problem. -/
def orProblem {α : Type} (a : Except Failure α) : Except Problem α :=
  a.mapError .failure

namespace RunOptions

/-- The settings of a run, without regard to the option that replaces the watermark policy. -/
def fileSettings (o : RunOptions) (i : Inputs) : Except Problem Settings :=
  match o.config with
  | none => .ok .standard
  | some name => (i.fileText name).bind fun text => orProblem (Settings.parse text)

/-- The settings with another allowed lateness, which are checked once more. -/
def withLateness (lateness : Millis) (s : Settings) : Except Problem Settings :=
  let s := { s with watermark := .eventTime lateness }
  match s.flaw? with
  | none => .ok s
  | some flaw => .error (.failure flaw.failure)

/-- The settings of a run. -/
def settings (o : RunOptions) (i : Inputs) : Except Problem Settings :=
  (o.fileSettings i).bind fun s =>
    match o.lateness with
    | none => .ok s
    | some lateness => withLateness lateness s

/-- The definitions of a run, of which there must be some. -/
def definitions (o : RunOptions) (i : Inputs) : Except Problem (List Definition) :=
  (i.definitions o.topics).bind fun definitions =>
    if definitions.isEmpty then .error .noTopics else .ok definitions

/-- Creates the topics of definitions. -/
def createAll (r : Registry) : List Definition → Except Problem Registry
  | [] => .ok r
  | d :: definitions =>
    match r.create d.name d.text with
    | (r, .ok _) => createAll r definitions
    | (_, .error failure) => .error (.failure failure)

/-- The kept states that a text holds, by the names of their topics. -/
def keptStates (text : String) : Except Problem (List (String × Json)) :=
  match Json.parse? text with
  | some (.object members) =>
    match Json.settleMembers? (Json.depthLimit - 1) members [] with
    | some states => .ok states
    | none => .error .document
  | _ => .error .document

/-- Restores topics; states of names without a topic are passed over. -/
def restoreAll (r : Registry) : List (String × Json) → Except Problem Registry
  | [] => .ok r
  | (name, state) :: states =>
    match r.load name state.compact with
    | (r, .ok ()) => restoreAll r states
    | (r, .error failure) =>
      if failure.kind = .notFound then restoreAll r states else .error (.failure failure)

/-- Restores the topics from the file that is named, if one is. -/
def restore (o : RunOptions) (i : Inputs) (r : Registry) : Except Problem Registry :=
  match o.loadState with
  | none => .ok r
  | some name => ((i.fileText name).bind keptStates).bind (restoreAll r)

/-- The registry with all topics before the feed. -/
def prepare (o : RunOptions) (i : Inputs) : Except Problem Registry := do
  let settings ← o.settings i
  let definitions ← o.definitions i
  let r ← createAll (.new settings fun _ => true) definitions
  o.restore i r

/-- Takes in the feed and moves all topics to the last watermark, if one is given. -/
def replay (o : RunOptions) (i : Inputs) (r : Registry) :
    Except Problem (Registry × List Event) :=
  ((i.after o.topics).feed o.input).bind fun items =>
    match r.drain items with
    | (_, .error failure) => .error (.failure failure)
    | (r, .ok report) =>
      match o.finalWatermark with
      | none => .ok (r, report.published)
      | some watermark =>
        let (r, events) := r.advanceAll watermark
        .ok (r, report.published ++ events)

/-- What is kept of a topic, with its name. -/
def keptState (r : Registry) (name : String) : Except Problem (String × Json) :=
  (orProblem (r.save name)).bind fun text =>
    match (Json.parse? text).bind (Json.settle? Json.depthLimit) with
    | some state => .ok (name, state)
    | none => .error .document

/-- The file with what is kept of the topics, if one is named. -/
def stateWrites (o : RunOptions) (r : Registry) : Except Problem (List Write) :=
  match o.saveState with
  | none => .ok []
  | some name =>
    (r.names.mapM (keptState r)).map fun states => [⟨name, (Json.record states).pretty⟩]

/-- The text of the messages of events. -/
def messageText (format : OutputFormat) (events : List Event) : String :=
  match format with
  | .lines => String.join (events.map fun e => (Message.ofEvent e).encode ++ "\n")
  | .array => (Json.array ((Message.grouped events).map Message.toJson)).compact ++ "\n"
  | .pretty => (Json.array ((Message.grouped events).map Message.toJson)).pretty ++ "\n"

/-- Leaves files and the messages behind. -/
def deliver (o : RunOptions) (writes : List Write) (text : String) : Outcome :=
  if o.output = standardName then ⟨writes, text, .done⟩
  else ⟨writes ++ [⟨o.output, text⟩], "", .done⟩

/-- The outcome of a run. -/
def outcome (o : RunOptions) (i : Inputs) : Except Problem Outcome := do
  let r ← o.prepare i
  let (r, events) ← o.replay i r
  let writes ← o.stateWrites r
  return o.deliver writes (messageText o.format events)

end RunOptions

end TelemetryBands.Program
