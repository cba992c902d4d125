import TelemetryBands.Topic.Pipeline

/-!
# Registries of topics

A registry holds the topics under their names, the names under the endpoints that they watch, and
the subscriptions under their identifiers. This module has its tables and the life of topics: a
topic is created when every check on it passes, and nothing of it is left in the tables when it is
deleted.
-/

namespace TelemetryBands

/-- What identifies a topic. -/
structure TopicKey where
  name : String
  endpoint : Endpoint
  deriving DecidableEq, Repr

/-- A subscription of a registry. -/
structure Subscription where
  id : SubscriptionId
  topic : String
  /-- Whether the events wait in a queue of the registry. -/
  queued : Bool
  deriving DecidableEq, Repr

/-- The names of the topics that watch an endpoint, in the order of their creation. -/
structure Route where
  endpoint : Endpoint
  names : List String
  deriving DecidableEq, Repr

/-- A set of topics at work. -/
structure Registry where
  settings : Settings
  /-- The endpoints that topics may be created on. -/
  permits : Endpoint → Bool
  /-- The topics, in the order of their creation. -/
  topics : List Pipeline
  routes : List Route
  subscriptions : List Subscription
  faults : FaultChannel
  /-- The number of subscription identifiers issued so far. -/
  issued : Nat
  /-- The subscribers of deleted topics. -/
  retired : List Subscriber

namespace Registry

/-- A registry without topics. -/
def new (settings : Settings) (permits : Endpoint → Bool) : Registry where
  settings
  permits
  topics := []
  routes := []
  subscriptions := []
  faults := .new settings.faultCapacity.toNat
  issued := 0
  retired := []

/-- The topic of a name. -/
def topic? (r : Registry) (name : String) : Option Pipeline :=
  r.topics.find? fun p => p.name == name

/-- The topic of a name, or the failure that there is none. -/
def topic (r : Registry) (name : String) : Except Failure Pipeline :=
  match r.topic? name with
  | some p => .ok p
  | none => .error (.noTopic name)

/-- Puts a name into its place among ascending names. -/
def insertName (name : String) : List String → List String
  | [] => [name]
  | first :: names =>
    if name < first then name :: first :: names else first :: insertName name names

/-- The names of all topics, ascending. -/
def names (r : Registry) : List String :=
  r.topics.foldr (fun p names => insertName p.name names) []

/-- What identifies the topic of a name. -/
def key (r : Registry) (name : String) : Except Failure TopicKey :=
  (r.topic name).map fun p => ⟨name, p.endpoint⟩

/-- Why a topic is not created, apart from flaws of its description and its endpoint. -/
inductive Refusal where
  | emptyName
  | untrimmedName (name : String)
  | dense (state : UInt32) (windows : Int) (allowed : UInt64)
  | forbidden (endpoint : Endpoint)
  | taken (name : String)
  | full (topics : UInt64)
  deriving DecidableEq, Repr

/-- The failure that a refusal is answered with. -/
def Refusal.failure : Refusal → Failure
  | .emptyName => ⟨.validation, "topic name must not be empty"⟩
  | .untrimmedName name =>
    ⟨.validation, s!"topic name '{name}' has leading or trailing whitespace"⟩
  | .dense state windows allowed =>
    ⟨.resource, s!"rule for state {state} puts each sample in {windows} windows, "
      ++ s!"more than the {allowed} allowed open"⟩
  | .forbidden endpoint => ⟨.permissionDenied, "no management privilege on " ++ endpoint.text⟩
  | .taken name => ⟨.alreadyExists, s!"topic '{name}'"⟩
  | .full topics => ⟨.resource, s!"registry already holds {topics} topics"⟩

/-- What is wrong with the name of a topic, if anything. -/
def nameRefusal? (name : String) : Option Refusal :=
  if name.isEmpty then some .emptyName
  else if Text.trimmed name != name then some (.untrimmedName name)
  else none

/-- A count of windows as a 64-bit number with a sign. -/
def signedLimit (n : UInt64) : Int :=
  Int.bmod n.toNat Text.limit64

/-- The first rule whose windows would put one sample into more windows than may be open. -/
def densityRefusal? (r : Registry) (ladder : Ladder) : Option Refusal :=
  let allowed := r.settings.maxOpenWindows
  (ladder.rules.find? fun rule => decide (signedLimit allowed < rule.windowsPerSample)).map
    fun rule => .dense rule.state rule.windowsPerSample allowed

/-- Why the tables do not take a topic, if they do not. -/
def tableRefusal? (r : Registry) (name : String) : Option Refusal :=
  if (r.topic? name).isSome then some (.taken name)
  else if r.settings.maxTopics.toNat ≤ r.topics.length then some (.full r.settings.maxTopics)
  else none

/-- Adds a name to the topics of an endpoint. -/
def addRoute (endpoint : Endpoint) (name : String) : List Route → List Route
  | [] => [⟨endpoint, [name]⟩]
  | route :: routes =>
    if route.endpoint = endpoint then { route with names := route.names ++ [name] } :: routes
    else route :: addRoute endpoint name routes

/-- Takes a name from the topics of an endpoint; an endpoint without topics is forgotten. -/
def dropRoute (endpoint : Endpoint) (name : String) : List Route → List Route
  | [] => []
  | route :: routes =>
    if route.endpoint = endpoint then
      let names := route.names.filter (· != name)
      if names.isEmpty then routes else { route with names } :: routes
    else route :: dropRoute endpoint name routes

/-- Checks everything that a topic must satisfy and gives the endpoint that it watches. -/
def examine (r : Registry) (name : String) (spec : TopicSpec) : Except Failure Endpoint :=
  match nameRefusal? name <|> r.densityRefusal? spec.ladder with
  | some refusal => .error refusal.failure
  | none =>
    match Endpoint.resolve r.settings.scope spec.device spec.point with
    | .error flaw => .error flaw.failure
    | .ok endpoint =>
      if !r.permits endpoint then .error (Refusal.forbidden endpoint).failure
      else
        match r.tableRefusal? name with
        | some refusal => .error refusal.failure
        | none => .ok endpoint

/-- Adds a topic to the tables. -/
def install (r : Registry) (name : String) (endpoint : Endpoint) (spec : TopicSpec) : Registry :=
  { r with
    topics := r.topics ++ [.new name endpoint spec r.settings]
    routes := addRoute endpoint name r.routes }

/-- Creates a topic of a description. -/
def createFrom (r : Registry) (name : String) (spec : TopicSpec) :
    Registry × Except Failure TopicKey :=
  match r.examine name spec with
  | .error failure => (r, .error failure)
  | .ok endpoint => (r.install name endpoint spec, .ok ⟨name, endpoint⟩)

/-- Creates a topic of a document. -/
def create (r : Registry) (name text : String) : Registry × Except Failure TopicKey :=
  match TopicSpec.parse text with
  | .error flaw => (r, .error flaw.failure)
  | .ok spec => r.createFrom name spec

/-- Takes a topic and its subscriptions out of the tables. -/
def uninstall (r : Registry) (p : Pipeline) : Registry :=
  { r with
    topics := r.topics.filter fun q => q.name != p.name
    routes := dropRoute p.endpoint p.name r.routes
    subscriptions := r.subscriptions.filter fun s => s.topic != p.name
    retired := r.retired ++ p.shutDown.dispatcher.departed }

/-- Deletes a topic. -/
def delete (r : Registry) (name : String) : Registry × Except Failure Unit :=
  match r.topic name with
  | .error failure => (r, .error failure)
  | .ok p => (r.uninstall p, .ok ())

/-- Deletes all topics and gives their number. -/
def cleanUp (r : Registry) : Registry × Nat :=
  (r.names.foldl (fun r name => (r.delete name).1) r, r.topics.length)

end Registry

end TelemetryBands
