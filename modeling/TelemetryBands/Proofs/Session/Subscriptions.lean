import TelemetryBands.Proofs.Delivery.Identifiers
import TelemetryBands.Proofs.Registry.Deletion
import TelemetryBands.Proofs.Session.Following
import TelemetryBands.Proofs.Session.Texts

/-!
# What callers can do with their subscriptions

A caller gets the text of an identifier and passes it back to read or to end the subscription. The
text is good for this until a call ends the subscription, and never again.
-/

namespace TelemetryBands.Session

variable {s : Session} {h : Handle} {request : Request} {a : Argument} {id : SubscriptionId}

/-- Whether a request ends a subscription. -/
def Request.ends (entry : Subscription) : Request → Bool
  | .delete name => name.text? == some entry.topic
  | .cleanUp => true
  | .unsubscribe a => a.id? == some entry.id
  | _ => false

/-- Whether a call ends a subscription of the registry that the session has. -/
def Call.ends (entry : Subscription) : Call → Bool
  | .ask true request => request.ends entry
  | _ => false

theorem Request.ends_eq (entry : Subscription) (request : Request) :
    request.ends entry = request.call?.any fun call => call.ends entry := by
  cases request with
  | create name text =>
    rw [call?]
    cases name.text? <;> cases text.text? <;> rfl
  | delete name =>
    rw [call?, ends]
    cases name.text? <;> simp [Registry.Call.ends, eq_comm]
  | cleanUp => rfl
  | subscribe topic =>
    rw [call?]
    cases topic.text? <;> rfl
  | unsubscribe a =>
    rw [call?, ends, Argument.id?]
    cases a.text? with
    | none => rfl
    | some text =>
      simp only [Option.bind_some]
      cases SubscriptionId.ofText? text <;> simp [Registry.Call.ends, eq_comm]
  | next a =>
    rw [call?]
    cases a.text? with
    | none => rfl
    | some text =>
      simp only [Option.bind_some]
      cases SubscriptionId.ofText? text <;> rfl
  | ingest device point t x =>
    rw [call?]
    cases device.text? <;> cases point.text? <;> rfl
  | advance device point w =>
    rw [call?]
    cases device.text? <;> cases point.text? <;> rfl

/-- A session ends a subscription by what it asks of the registry. -/
theorem Call.ends_eq (entry : Subscription) (call : Call) :
    call.ends entry = call.call?.any fun call => call.ends entry := by
  cases call with
  | ask passed request =>
    cases passed with
    | true => exact Request.ends_eq entry request
    | false => rfl
  | _ => rfl

theorem any_ends (entry : Subscription) (calls : List Call) :
    (calls.any fun call => call.ends entry) =
      (calls.filterMap Call.call?).any fun call => call.ends entry := by
  rw [List.any_filterMap]
  congr 1
  funext call
  rw [Call.ends_eq]
  cases call.call? <;> rfl

/-- What a request returns, with the number of the failure that is remembered then. -/
def answer (s : Session) (request : Request) : Returned × Nat :=
  ((s.apply (.ask true request)).2, (s.apply (.ask true request)).1.lastCode)

theorem answer_of_ok {returned : Returned} (hs : s.handle = some h)
    (hserve : (serve h request).2 = .ok returned) : s.answer request = (returned, 0) := by
  rw [answer, apply_ask, ask_of_ok hs hserve]
  rfl

theorem answer_of_error {failure : Failure} (hs : s.handle = some h)
    (hserve : (serve h request).2 = .error failure) :
    s.answer request = (request.onFailure, failure.code) := by
  rw [answer, apply_ask, ask_of_error hs hserve]
  rfl

/-- An answer that is no failure comes from the registry. -/
theorem exists_served {returned : Returned}
    (hreturned : (s.apply (.ask true request)).2 = returned) (hgood : returned.isFailure = false) :
    ∃ h, s.handle = some h ∧ (serve h request).2 = .ok returned := by
  have hfails : ∀ {outcome : Session × Returned}, s.apply (.ask true request) = outcome →
      outcome.2 ≠ request.onFailure := by
    rintro outcome hask hfailed
    rw [← hreturned, hask, hfailed, isFailure_onFailure] at hgood
    cases hgood
  cases hs : s.handle with
  | none => exact absurd rfl (hfails (ask_of_none hs true request))
  | some h =>
    refine ⟨h, rfl, ?_⟩
    cases hserve : (serve h request).2 with
    | error failure => exact absurd rfl (hfails (ask_of_error hs hserve))
    | ok other =>
      rw [← hreturned, apply_ask, ask_of_ok hs hserve]

/-- The session takes an argument for a subscription: whoever reads gets an event or waits in vain,
and the subscription can be ended. -/
structure Knows (s : Session) (a : Argument) : Prop where
  read : (∃ text, s.answer (.next a) = (.text (some text), 0)) ∨
    s.answer (.next a) = (.text none, 13014)
  ended : s.answer (.unsubscribe a) = (.status 0, 0)

/-- The session finds no subscription for an argument. -/
structure Misses (s : Session) (a : Argument) : Prop where
  read : s.answer (.next a) = (.text none, 13013)
  ended : s.answer (.unsubscribe a) = (.status (-1), 13013)

theorem exists_text_of_id? (ha : a.id? = some id) :
    ∃ text, a.text? = some text ∧ SubscriptionId.ofText? text = some id :=
  Option.bind_eq_some_iff.mp ha

theorem knows_of_entry (hs : s.handle = some h) (hin : h.InOrder) (ha : a.id? = some id)
    {entry : Subscription} (hentry : h.registry.subscription? id = some entry) : s.Knows a := by
  obtain ⟨text, htext, hid⟩ := exists_text_of_id? ha
  constructor
  · have hserve : (serve h (.next a)).2 =
        (h.registry.next id).2.map fun e => .text (some (Message.ofEvent e).encode) := by
      simp only [serve, required_of_some htext, given, Handle.next_of_known hin hid hentry]
      cases (h.registry.next id).2 with
      | error failure => rfl
      | ok e => simp only [Except.map, telling_of_zeroFree (Text.zeroFree_encode _)]
    rcases hin.queueing.next_of_known hin.consistent hentry with ⟨e, hnext⟩ | hnext
    · rw [hnext] at hserve
      exact Or.inl ⟨(Message.ofEvent e).encode, answer_of_ok hs hserve⟩
    · rw [hnext] at hserve
      exact Or.inr (answer_of_error hs hserve)
  · have hserve : (serve h (.unsubscribe a)).2 = .ok (.status 0) := by
      simp only [serve, required_of_some htext, given, counting,
        Handle.unsubscribe_of_known hin hid hentry]
      rfl
    exact answer_of_ok hs hserve

theorem misses_of_no_entry (hs : s.handle = some h) (hin : h.InOrder) (ha : a.id? = some id)
    (hentry : h.registry.subscription? id = none) : s.Misses a := by
  obtain ⟨text, htext, hid⟩ := exists_text_of_id? ha
  have hnext : (serve h (.next a)).2 = .error (Registry.noSubscription id) := by
    simp only [serve, required_of_some htext, given, telling,
      Handle.next_of_unknown hin hid hentry]
    rfl
  have hunsubscribe : (serve h (.unsubscribe a)).2 = .error (Registry.noSubscription id) := by
    simp only [serve, required_of_some htext, given, counting,
      Handle.unsubscribe_of_unknown hin hid hentry]
    rfl
  exact ⟨answer_of_error hs hnext, answer_of_error hs hunsubscribe⟩

/-- Whoever gets a text for a topic has a subscription to this topic in the tables. -/
theorem exists_of_subscribed {topic : Argument} {text : String}
    (hsubscribed : (s.apply (.ask true (.subscribe topic))).2 = .text (some text)) :
    ∃ name next, topic.text? = some name ∧ text = (SubscriptionId.issue s.issued).text ∧
      (s.apply (.ask true (.subscribe topic))).1.handle = some next ∧
      ⟨.issue s.issued, name, true⟩ ∈ next.registry.subscriptions := by
  obtain ⟨h, hs, hserve⟩ := exists_served hsubscribed rfl
  have hissued : s.issued = h.registry.issued := by simp only [issued, hs]
  rw [apply_ask, handle_ask hs, hissued]
  cases hname : topic.text? with
  | none => simp [serve, required_of_none hname, given] at hserve
  | some name =>
    have hsame : serve h (.subscribe topic) = telling (h.subscribe name) := by
      rw [serve, required_of_some hname, given]
    rw [hsame] at hserve ⊢
    cases hfind : h.registry.topic? name with
    | none => simp [Handle.subscribe_of_none hfind, telling, Except.map] at hserve
    | some p =>
      rw [Handle.subscribe_of_some hfind] at hserve ⊢
      have htext : text = (SubscriptionId.issue h.registry.issued).text := by
        simpa [telling_of_zeroFree (Text.zeroFree_id _), eq_comm] using hserve
      refine ⟨name, _, rfl, htext, rfl, ?_⟩
      have hentries := h.registry.subscriptions_attach name
        (.queue (.new h.registry.settings.queueCapacity.toNat h.registry.settings.overflow)) true
      have hmem : ⟨.issue h.registry.issued, name, true⟩ ∈ h.registry.nextEntry name true := by
        simp [Registry.nextEntry, hfind]
      exact hentries ▸ List.mem_append_right _ hmem

/-- A subscription can be used until a call ends it, and is missing ever after. -/
theorem usable_until_ended (hin : s.InOrder) (hs : s.handle = some h) {entry : Subscription}
    (hentry : entry ∈ h.registry.subscriptions) {later : List Call}
    (hkeeps : ∀ call ∈ later, call.KeepsRegistry) (ha : a.id? = some entry.id) :
    if later.any fun call => call.ends entry then (s.run later).1.Misses a
    else (s.run later).1.Knows a := by
  obtain ⟨final, hfinal, hregistry⟩ := run_continues hkeeps hs hin
  have hfinalIn : final.InOrder := hin.run later final hfinal
  have hlasts := Registry.lasts_run (hin h hs).consistent hentry (later.filterMap Call.call?)
  rw [← any_ends, ← hregistry] at hlasts
  split
  · rename_i hends
    rw [if_pos hends] at hlasts
    exact misses_of_no_entry hfinal hfinalIn ha (Registry.subscription?_eq_none hlasts.absent)
  · rename_i hends
    rw [if_neg hends] at hlasts
    have hfind := (Registry.subscription?_eq_some_iff hfinalIn.consistent).mpr ⟨hlasts, rfl⟩
    exact knows_of_entry hfinal hfinalIn ha hfind

/-- The table of a session has the subscriptions of its registry, whatever was asked before. So the
text that a caller gets for a topic can be used to read and to end the subscription until the topic
is deleted, all topics are deleted or the subscription is ended, and is refused ever after. -/
theorem subscriptions_are_mirrored (calls : List Call) :
    let s := (initial.run calls).1
    (∀ h, s.handle = some h → h.subscriptions = h.registry.subscriptions) ∧
      ∀ topic text, (s.apply (.ask true (.subscribe topic))).2 = .text (some text) →
        ∃ name id, topic.text? = some name ∧ text = id.text ∧
          (s.issued < SubscriptionId.supply → (Argument.ofText text).id? = some id) ∧
          ∀ later, (∀ call ∈ later, call.KeepsRegistry) → ∀ a, a.id? = some id →
            let t := ((s.apply (.ask true (.subscribe topic))).1.run later).1
            if later.any fun call => call.ends ⟨id, name, true⟩ then t.Misses a else t.Knows a := by
  intro s
  have hin : s.InOrder := inOrder_initial.run calls
  refine ⟨fun h hs => (hin h hs).mirrors, fun topic text hsubscribed => ?_⟩
  obtain ⟨name, h, hname, htext, hs, hentry⟩ := exists_of_subscribed hsubscribed
  have hsubscribedIn := hin.apply (.ask true (.subscribe topic))
  refine ⟨name, .issue s.issued, hname, htext, fun hsupply => ?_,
    fun later hkeeps a ha => usable_until_ended hsubscribedIn hs hentry hkeeps ha⟩
  rw [htext, Argument.id?, Argument.text?_ofText, Option.bind_some]
  exact SubscriptionId.ofText?_text (SubscriptionId.isShown_issue hsupply)

/-- The first subscription to a topic can be used again after a read, but not after the topic is
deleted. -/
theorem subscriptions_are_mirrored_deleted :
    let s := (initial.run [.new none, .ask true (.create (.ofText "t") (.ofText countingText))]).1
    let subscribed := s.apply (.ask true (.subscribe (.ofText "t")))
    let shown := (SubscriptionId.issue 0).text
    subscribed.2 = .text (some shown) ∧
      (subscribed.1.run [.ask true (.next (.ofText shown))]).1.Knows (.ofText shown) ∧
      (subscribed.1.run [.ask true (.delete (.ofText "t"))]).1.Misses (.ofText shown) := by
  intro s subscribed shown
  have hrun : subscribed.2 = .text (some shown) ∧ s.issued < SubscriptionId.supply := by
    decide +kernel
  obtain ⟨hsubscribed, hsupply⟩ := hrun
  obtain ⟨name, id, hname, -, hshown, hlater⟩ :=
    (subscriptions_are_mirrored _).2 (.ofText "t") shown hsubscribed
  have hkeeps : ∀ request : Request, ∀ call ∈ [Call.ask true request], call.KeepsRegistry := by
    intro request call hcall
    rw [List.mem_singleton.mp hcall]
    trivial
  refine ⟨hsubscribed, ?_, ?_⟩
  · have hread := hlater [.ask true (.next (.ofText shown))] (hkeeps _) _ (hshown hsupply)
    simpa [Call.ends, Request.ends] using hread
  · have hdeleted := hlater [.ask true (.delete (.ofText "t"))] (hkeeps _) _ (hshown hsupply)
    simpa [Call.ends, Request.ends, hname] using hdeleted

end TelemetryBands.Session
