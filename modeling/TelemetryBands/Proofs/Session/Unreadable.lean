import TelemetryBands.Proofs.Session.Answers

/-!
# Arguments that are no text

Bytes that are no text are taken for a missing argument. Where a call needs its arguments this is
refused, and nothing changes. Two calls may do without theirs: a registry is then made with the
standard settings, and a watermark is then meant for all topics. So these two do not refuse such
bytes but act as if nothing had been passed.
-/

namespace TelemetryBands

/-- Something is passed that is no text. -/
def Argument.IsUnreadable (a : Argument) : Prop :=
  a ≠ none ∧ a.text? = none

namespace Session

/-- The arguments of a request. -/
def Request.arguments : Request → List Argument
  | .create name text => [name, text]
  | .delete name => [name]
  | .cleanUp => []
  | .subscribe topic => [topic]
  | .unsubscribe id => [id]
  | .next id => [id]
  | .ingest device point _ _ => [device, point]
  | .advance device point _ => [device, point]

/-- The arguments of a call. -/
def Call.arguments : Call → List Argument
  | .new config => [config]
  | .free | .version => []
  | .ask _ request => request.arguments

/-- The request without its arguments, if it may do without them. -/
def Request.bare? : Request → Option Request
  | .advance _ _ watermark => some (.advance none none watermark)
  | _ => none

/-- The call without its arguments, if it may do without them. -/
def Call.bare? : Call → Option Call
  | .new _ => some (.new none)
  | .ask passed request => request.bare?.map (.ask passed)
  | .free | .version => none

/-- A session refuses a call if it answers with the failure of a check and changes nothing else. -/
structure Refuses (s : Session) (call : Call) : Prop where
  fails : (s.apply call).2.isFailure = true
  code : (s.apply call).1.lastCode = 13061
  unchanged : (s.apply call).1.handle = s.handle

variable {s : Session} {h : Handle} {request : Request}

/-- A request that the checks of a registry refuse is refused, whether there is one or not. -/
theorem refuses_ask (passed : Bool)
    (hserve : ∀ h : Handle, ∃ failure : Failure,
      failure.kind = .validation ∧ serve h request = (h, .error failure)) :
    s.Refuses (.ask passed request) := by
  have hmissing : s.ask passed request = (s.cleared.failed noRegistry, request.onFailure) →
      s.Refuses (.ask passed request) := by
    intro hask
    refine ⟨?_, ?_, ?_⟩ <;> rw [apply_ask, hask]
    · exact isFailure_onFailure request
    · rfl
    · rfl
  cases hs : s.handle with
  | none => exact hmissing (ask_of_none hs passed request)
  | some h =>
    cases passed with
    | false => exact hmissing (ask_of_not_passed s request)
    | true =>
      obtain ⟨failure, hkind, hserve⟩ := hserve h
      have hask := ask_of_error hs (congrArg Prod.snd hserve)
      rw [hserve] at hask
      refine ⟨?_, ?_, ?_⟩ <;> rw [apply_ask, hask]
      · exact isFailure_onFailure request
      · exact congrArg Failure.Kind.code hkind
      · exact hs.symm

/-- Half an endpoint is refused, whatever the other half would have been. -/
theorem advance_of_half {device point : Argument} (w : Millis)
    (hhalf : device.text?.isSome ≠ point.text?.isSome) (h : Handle) :
    serve h (.advance device point w) = (h, .error Handle.halfTarget) := by
  cases hdevice : device.text? with
  | none =>
    cases hpoint : point.text? with
    | none => simp [hdevice, hpoint] at hhalf
    | some point => simp [serve, Handle.advance, counting, hdevice, hpoint, Except.map]
  | some device =>
    cases hpoint : point.text? with
    | none => simp [serve, Handle.advance, counting, hdevice, hpoint, Except.map]
    | some point => simp [hdevice, hpoint] at hhalf

/-- A request that needs its arguments is refused if one of them is no text. -/
theorem serve_of_unreadable {a : Argument} (ha : a ∈ request.arguments) (htext : a.text? = none)
    (hneeds : request.bare? = none) (h : Handle) :
    ∃ failure : Failure, failure.kind = .validation ∧ serve h request = (h, .error failure) := by
  have hfirst : ∀ {name : String} {f : String → Handle × Except Failure Returned},
      given h (required a name) f = (h, .error (missing name)) := by
    intro name f
    rw [required_of_none htext, given]
  -- Of two arguments the second is looked at only if the first is a text.
  have hpair : ∀ {first second : Argument} {n m : String}
      {f : String → String → Handle × Except Failure Returned}, a ∈ [first, second] →
        ∃ failure : Failure, failure.kind = .validation ∧
          given h (required first n) (fun x => given h (required second m) (f x)) =
            (h, .error failure) := by
    intro first second n m f hmem
    cases hreadable : first.text? with
    | none => exact ⟨missing n, rfl, by rw [required_of_none hreadable, given]⟩
    | some text =>
      have hsecond : second.text? = none := by
        rcases List.mem_cons.mp hmem with rfl | hmem
        · rw [htext] at hreadable
          cases hreadable
        · rw [← List.mem_singleton.mp hmem]
          exact htext
      refine ⟨missing m, rfl, ?_⟩
      rw [required_of_some hreadable, given, required_of_none hsecond, given]
  cases request with
  | create name text => exact hpair ha
  | delete name =>
    obtain rfl := List.mem_singleton.mp ha
    exact ⟨_, rfl, hfirst⟩
  | cleanUp => cases ha
  | subscribe topic =>
    obtain rfl := List.mem_singleton.mp ha
    exact ⟨_, rfl, hfirst⟩
  | unsubscribe id =>
    obtain rfl := List.mem_singleton.mp ha
    exact ⟨_, rfl, hfirst⟩
  | next id =>
    obtain rfl := List.mem_singleton.mp ha
    exact ⟨_, rfl, hfirst⟩
  | ingest device point t x => exact hpair ha
  | advance device point w => cases hneeds

/-- A call with an argument that is no text is refused if it needs its arguments or is given a text
beside. Otherwise it does what it does without arguments: a registry is made with the standard
settings, or the watermark of every topic moves on. -/
theorem unreadable_arguments_are_refused_or_overlooked (s : Session) {call : Call}
    (hcall : ∃ a ∈ call.arguments, a.IsUnreadable) :
    ((call.bare? = none ∨ ∃ a ∈ call.arguments, a.text? ≠ none) → s.Refuses call) ∧
      ∀ bare, call.bare? = some bare → (∀ a ∈ call.arguments, a.text? = none) →
        s.apply call = s.apply bare := by
  obtain ⟨a, ha, -, htext⟩ := hcall
  constructor
  · intro hneeds
    cases call with
    | new config =>
      obtain rfl := List.mem_singleton.mp ha
      rcases hneeds with hneeds | ⟨b, hb, hreadable⟩
      · cases hneeds
      · rw [List.mem_singleton.mp hb] at hreadable
        exact absurd htext hreadable
    | free => cases ha
    | version => cases ha
    | ask passed request =>
      apply refuses_ask passed
      cases hbare : request.bare? with
      | none => exact serve_of_unreadable ha htext hbare
      | some bare =>
        -- Only a watermark may do without its target, and here it has half of one.
        cases request with
        | advance device point w =>
          rcases hneeds with hneeds | ⟨b, hb, hreadable⟩
          · cases hneeds
          · refine fun h => ⟨_, rfl, advance_of_half w ?_ h⟩
            simp only [Call.arguments, Request.arguments, List.mem_cons, List.not_mem_nil,
              or_false] at ha hb
            rcases ha with rfl | rfl <;> rcases hb with rfl | rfl <;>
              simp_all [Option.ne_none_iff_exists']
        | _ => cases hbare
  · intro bare hbare hnone
    cases call with
    | new config =>
      obtain rfl := Option.some.inj hbare
      have hconfig : config.text? = none := hnone config List.mem_cons_self
      simp only [apply, settingsOf, hconfig]
      rfl
    | free => cases hbare
    | version => cases hbare
    | ask passed request =>
      cases request with
      | advance device point w =>
        obtain rfl := Option.some.inj hbare
        have hdevice : device.text? = none := hnone device List.mem_cons_self
        have hpoint : point.text? = none :=
          hnone point (List.mem_cons_of_mem device List.mem_cons_self)
        have hserve : ∀ h, serve h (.advance device point w) = serve h (.advance none none w) := by
          intro h
          simp only [serve, hdevice, hpoint]
          rfl
        simp only [apply, ask, hserve]
        rfl
      | _ => cases hbare

/-- The calls that make a registry with one topic, which has one sample in its window. -/
def preparation : List Call :=
  [.new none, .ask true (.create (.ofText "t") (.ofText countingText)),
    .ask true (.ingest (.ofText "boiler") (.ofText "pressure") 100 1.0)]

/-- A topic whose name is no text is not created; a watermark whose target is no text is a watermark
for all topics. -/
theorem unreadable_arguments_are_refused_or_overlooked_created_flushed :
    let s := (initial.run preparation).1
    s.Refuses (.ask true (.create (some [0xFF]) (.ofText countingText))) ∧
      s.apply (.ask true (.advance (some [0xFF]) none 5000)) =
        s.apply (.ask true (.advance none none 5000)) := by
  have hunreadable : Argument.IsUnreadable (some [0xFF]) := ⟨nofun, by decide +kernel⟩
  intro s
  constructor
  · exact (unreadable_arguments_are_refused_or_overlooked s
      ⟨some [0xFF], List.mem_cons_self, hunreadable⟩).1 (Or.inl rfl)
  · refine (unreadable_arguments_are_refused_or_overlooked s
      ⟨some [0xFF], List.mem_cons_self, hunreadable⟩).2 _ rfl fun a ha => ?_
    rcases List.mem_cons.mp ha with rfl | ha
    · exact hunreadable.2
    · rw [List.mem_singleton.mp ha]
      rfl

/-- The watermark of a target that is no text closes the window of the topic, and settings that are
no text make a registry. Neither is a failure. -/
theorem unreadable_arguments_are_not_refused :
    let s := (initial.run preparation).1
    let flush : Call := .ask true (.advance (some [0xFF]) (some [0xFF]) 5000)
    let opened : Call := .new (some [0xFF])
    (∀ a ∈ flush.arguments ++ opened.arguments, a.IsUnreadable) ∧
      (s.apply flush).2 = .status 1 ∧
      ((s.apply flush).1.handle.bind fun h => h.registry.topic? "t").map Pipeline.watermark =
        some (some 5000) ∧
      ¬ s.Refuses flush ∧
      (s.apply opened).2 = .created true ∧ ¬ s.Refuses opened := by
  have hunreadable : Argument.IsUnreadable (some [0xFF]) := ⟨nofun, by decide +kernel⟩
  intro s flush opened
  have hflush : (s.apply flush).2 = .status 1 ∧
      ((s.apply flush).1.handle.bind fun h => h.registry.topic? "t").map Pipeline.watermark =
        some (some 5000) := by decide +kernel
  have hopened : (s.apply opened).2 = .created true := by
    simp only [apply, opened, settingsOf, hunreadable.2]
  refine ⟨?_, hflush.1, hflush.2, fun h => ?_, hopened, fun h => ?_⟩
  · intro a ha
    have heq : a = some [0xFF] := by
      simpa [flush, opened, Call.arguments, Request.arguments] using ha
    rw [heq]
    exact hunreadable
  · have hfails := h.fails
    rw [hflush.1] at hfails
    cases hfails
  · have hfails := h.fails
    rw [hopened] at hfails
    cases hfails

end Session

end TelemetryBands
