import TelemetryBands.Proofs.Delivery.Roll
import TelemetryBands.Proofs.Topic.Listening

/-!
# Topics that are shut down

A topic that is shut down has closed the sinks of all its subscribers, each once, and it never
publishes again. Whoever departed keeps what was handed over until then, and whoever comes later
gets nothing.
-/

namespace TelemetryBands

/-- No sink of those present was closed. -/
def Roll.Open (roll : Roll) : Prop :=
  ∀ c ∈ roll.present, c.closes = 0

namespace Roll.Open

variable {roll : Roll}

theorem add (h : roll.Open) (id : SubscriptionId) : (roll.add id).Open := by
  intro c hc
  rcases List.mem_append.mp hc with hc | hc
  · exact h c hc
  · rw [List.mem_singleton.mp hc]

theorem remove (h : roll.Open) (id : SubscriptionId) : (roll.remove id).Open := by
  unfold Roll.remove
  split
  · exact h
  · exact fun c hc => h c (List.mem_of_mem_eraseP hc)

theorem closeAll (roll : Roll) : roll.closeAll.Open := by
  intro c hc
  cases hc

end Roll.Open

namespace Pipeline

variable {p : Pipeline} {past : List Subscriber}

/-- Sinks are closed only when their subscribers go. -/
theorem open_apply (h : p.dispatcher.roll.Open) (call : Call) :
    (p.apply call).1.dispatcher.roll.Open := by
  by_cases hwork : call.IsWork
  · rw [dispatcher_apply hwork, Dispatcher.roll_dispatchAll]
    exact h
  · cases call with
    | subscribe id sink =>
      simp only [apply, subscribe, Dispatcher.roll_add]
      exact h.add id
    | unsubscribe id =>
      simp only [apply, unsubscribe, Dispatcher.roll_remove]
      exact h.remove id
    | shutDown =>
      simp only [apply, shutDown, Dispatcher.roll_closeAll]
      exact Roll.Open.closeAll _
    | _ => exact absurd trivial hwork

theorem open_run (h : p.dispatcher.roll.Open) (calls : List Call) :
    (p.run calls).1.dispatcher.roll.Open := by
  induction calls generalizing p with
  | nil => exact h
  | cons call calls ih => exact ih (open_apply h call)

theorem open_new (name : String) (endpoint : Endpoint) (spec : TopicSpec) (settings : Settings) :
    (new name endpoint spec settings).dispatcher.roll.Open := by
  intro c hc
  cases hc

/-- A topic that is deleted and has handed nothing over to anyone but those of its past. -/
structure Silent (past : List Subscriber) (p : Pipeline) : Prop where
  deleted : p.deleted = true
  departed : ∃ later, p.dispatcher.departed = past ++ later ∧ ∀ s ∈ later, s.offered = []
  subscribers : ∀ s ∈ p.dispatcher.subscribers, s.offered = []

theorem silent_shutDown (p : Pipeline) : p.shutDown.Silent p.shutDown.dispatcher.departed where
  deleted := rfl
  departed := ⟨[], (List.append_nil _).symm, by simp⟩
  subscribers := by
    intro s hs
    cases hs

namespace Silent

theorem subscribe (h : p.Silent past) (id : SubscriptionId) (sink : Sink) :
    (p.subscribe id sink).Silent past where
  deleted := h.deleted
  departed := h.departed
  subscribers := by
    intro s hs
    rcases List.mem_append.mp hs with hs | hs
    · exact h.subscribers s hs
    · rw [List.mem_singleton.mp hs]

theorem unsubscribe (h : p.Silent past) (id : SubscriptionId) :
    (p.unsubscribe id).1.Silent past := by
  unfold Pipeline.unsubscribe Dispatcher.remove
  cases hfind : p.dispatcher.find? id with
  | none => exact h
  | some s =>
    obtain ⟨later, hdeparted, hlater⟩ := h.departed
    have hs : s.offered = [] := h.subscribers s (List.mem_of_find?_eq_some hfind)
    refine ⟨h.deleted, ⟨later ++ [s.close], ?_, ?_⟩, ?_⟩
    · simp only [hdeparted, List.append_assoc]
    · intro x hx
      rcases List.mem_append.mp hx with hx | hx
      · exact hlater x hx
      · rw [List.mem_singleton.mp hx]
        exact hs
    · exact fun x hx => h.subscribers x (List.mem_of_mem_eraseP hx)

theorem shutDown (h : p.Silent past) : p.shutDown.Silent past := by
  obtain ⟨later, hdeparted, hlater⟩ := h.departed
  refine ⟨rfl, ⟨later ++ p.dispatcher.subscribers.map Subscriber.close, ?_, ?_⟩, ?_⟩
  · simp only [Pipeline.shutDown, Dispatcher.closeAll, hdeparted, List.append_assoc]
  · intro x hx
    rcases List.mem_append.mp hx with hx | hx
    · exact hlater x hx
    · obtain ⟨s, hs, rfl⟩ := List.mem_map.mp hx
      exact h.subscribers s hs
  · intro x hx
    cases hx

theorem load (h : p.Silent past) (text : String) : (p.apply (.load text)).1.Silent past := by
  have hwork : (Call.load text).IsWork := trivial
  have hdispatcher : (p.apply (.load text)).1.dispatcher = p.dispatcher := by
    rw [dispatcher_apply hwork]
    simp only [Pipeline.apply]
    cases p.load text <;> rfl
  have hdeleted : (p.apply (.load text)).1.deleted = p.deleted :=
    congrArg Identity.deleted (identity_apply hwork)
  refine ⟨hdeleted.trans h.deleted, ?_, ?_⟩
  · rw [hdispatcher]
    exact h.departed
  · rw [hdispatcher]
    exact h.subscribers

/-- A silent topic stays silent. -/
theorem apply (h : p.Silent past) (call : Call) :
    (p.apply call).1.Silent past ∧ (p.apply call).2.2.events = [] := by
  cases call with
  | ingest s =>
    simp only [Pipeline.apply, ingest_of_deleted h.deleted]
    exact ⟨h, rfl⟩
  | advance w =>
    have hskips : p.skips w = true := by simp [skips, h.deleted]
    simp only [Pipeline.apply, advance_of_skips hskips]
    exact ⟨h, rfl⟩
  | subscribe id sink => exact ⟨h.subscribe id sink, rfl⟩
  | unsubscribe id => exact ⟨h.unsubscribe id, rfl⟩
  | load text =>
    refine ⟨h.load text, ?_⟩
    simp only [Pipeline.apply]
    cases p.load text <;> rfl
  | shutDown => exact ⟨h.shutDown, rfl⟩

theorem run (h : p.Silent past) (calls : List Call) :
    (p.run calls).1.Silent past ∧ (effects (p.run calls).2).events = [] := by
  induction calls generalizing p with
  | nil => exact ⟨h, rfl⟩
  | cons call calls ih =>
    obtain ⟨hcall, hevents⟩ := h.apply call
    obtain ⟨hrun, hrest⟩ := ih hcall
    refine ⟨hrun, ?_⟩
    rw [events_run_cons, hevents, hrest, List.append_nil]

end Silent

end Pipeline

end TelemetryBands
