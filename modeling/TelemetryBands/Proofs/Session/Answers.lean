import TelemetryBands.Session

/-!
# How a session answers

A request reaches the registry of a session only if there is one and the caller passes it. Then the
session keeps the registry as the request leaves it, and remembers the failure if there is one.
Without a registry nothing but the remembered failure changes.
-/

namespace TelemetryBands

/-- A text as an argument. -/
def Argument.ofText (text : String) : Argument :=
  some text.toUTF8.data.toList

/-- A text that is passed is read as this text. -/
@[simp] theorem Argument.text?_ofText (text : String) : (ofText text).text? = some text := by
  have hvalid : text.toUTF8.IsValidUTF8 := text.isValidUTF8
  simp only [ofText, text?, Feed.textOf?, Option.bind_some, Array.toArray_toList]
  rw [String.fromUTF8?, dif_pos hvalid]
  rfl

namespace Session

variable {s : Session} {h : Handle} {request : Request} {returned : Returned} {failure : Failure}

theorem isFailure_onFailure (request : Request) : request.onFailure.isFailure = true := by
  unfold Request.onFailure
  split <;> rfl

theorem apply_ask (s : Session) (passed : Bool) (request : Request) :
    s.apply (.ask passed request) = s.ask passed request :=
  rfl

/-- Without a registry there is only the failure that it is missing. -/
theorem ask_of_none (hs : s.handle = none) (passed : Bool) (request : Request) :
    s.ask passed request = (s.cleared.failed noRegistry, request.onFailure) := by
  rw [ask, hs]

/-- A registry that is not passed is missing as well. -/
theorem ask_of_not_passed (s : Session) (request : Request) :
    s.ask false request = (s.cleared.failed noRegistry, request.onFailure) := by
  unfold ask
  cases s.handle <;> rfl

/-- A request that succeeds leaves no failure behind. -/
theorem ask_of_ok (hs : s.handle = some h) (hserve : (serve h request).2 = .ok returned) :
    s.ask true request = ({ s.cleared with handle := some (serve h request).1 }, returned) := by
  obtain ⟨next, hnext⟩ : ∃ next, serve h request = (next, .ok returned) := ⟨_, Prod.ext rfl hserve⟩
  simp only [ask, hs, hnext, Bool.not_true, Bool.false_eq_true, if_false]

/-- A request that fails leaves its failure behind. -/
theorem ask_of_error (hs : s.handle = some h) (hserve : (serve h request).2 = .error failure) :
    s.ask true request =
      ({ s.cleared with handle := some (serve h request).1 }.failed failure,
        request.onFailure) := by
  obtain ⟨next, hnext⟩ : ∃ next, serve h request = (next, .error failure) :=
    ⟨_, Prod.ext rfl hserve⟩
  simp only [ask, hs, hnext, Bool.not_true, Bool.false_eq_true, if_false]

/-- The registry is kept as the request leaves it. -/
theorem handle_ask (hs : s.handle = some h) (request : Request) :
    (s.ask true request).1.handle = some (serve h request).1 := by
  cases hserve : (serve h request).2 with
  | ok returned => rw [ask_of_ok hs hserve]
  | error failure =>
    rw [ask_of_error hs hserve]
    rfl

theorem required_of_none {a : Argument} (h : a.text? = none) (name : String) :
    required a name = .error (missing name) := by
  rw [required, h]

theorem required_of_some {a : Argument} {text : String} (h : a.text? = some text) (name : String) :
    required a name = .ok text := by
  rw [required, h]

/-- The document of a topic that counts the samples of each second. -/
def countingText : String :=
  (Json.record
    [("deviceName", .ofText "boiler"), ("endpointName", .ofText "pressure"),
      ("rules", .array [.record
        [("state", .ofInt 1), ("lowerBound", .ofInt 0), ("windowSize", .ofInt 1000),
          ("aggregation", .ofText "COUNT")]])]).compact

end Session

end TelemetryBands
