import TelemetryBands.Proofs.Registry.Failures
import TelemetryBands.Proofs.Registry.Lifetimes
import TelemetryBands.Proofs.Registry.Queueing
import TelemetryBands.Proofs.Session.Answers

/-!
# A handle follows its registry

A handle keeps a table of the subscriptions that were handed out, beside that of its registry. Every
request asks the registry for one thing at most and changes both tables alike. So the two tables are
the same, whatever was asked before.
-/

namespace TelemetryBands

/-- The identifier that an argument names. -/
def Argument.id? (a : Argument) : Option SubscriptionId :=
  a.text?.bind SubscriptionId.ofText?

namespace Handle

variable {h next : Handle} {call : Registry.Call} {text : String} {id : SubscriptionId}

/-- The table of a handle is that of its registry, whose own tables agree and whose subscribers read
from its queues. -/
structure InOrder (h : Handle) : Prop where
  mirrors : h.subscriptions = h.registry.subscriptions
  consistent : h.registry.tables.Consistent
  queueing : h.registry.Queueing

/-- A new handle is in order, however many identifiers were issued before. -/
theorem inOrder_new (settings : Settings) (issued : Nat) : (new settings issued).InOrder where
  mirrors := rfl
  consistent :=
    { Registry.consistent_new settings fun _ => true with
      issued := by simp [Registry.tables, new, Registry.new] }
  queueing :=
    have hnew := Registry.Queueing.new settings fun _ => true
    ⟨hnew.queued, hnew.listening⟩

/-- The registry makes a call, and the table of the handle changes as that of the registry does. -/
structure Follows (h : Handle) (call : Registry.Call) (next : Handle) : Prop where
  registry : next.registry = (h.registry.apply call).1
  subscriptions : next.subscriptions =
    (h.subscriptions.filter fun s => !call.ends s) ++ call.begun h.registry

/-- A handle that follows its registry stays in order. -/
theorem Follows.inOrder (hfollows : h.Follows call next) (hin : h.InOrder)
    (hqueued : call.IsQueued) : next.InOrder where
  mirrors := by
    rw [hfollows.subscriptions, hfollows.registry, Registry.subscriptions_apply hin.consistent,
      hin.mirrors]
  consistent := by
    rw [hfollows.registry]
    exact Registry.consistent_apply hin.consistent call
  queueing := by
    rw [hfollows.registry]
    exact hin.queueing.apply hqueued

/-- A call that ends no subscription and begins none is followed by keeping the table. -/
theorem follows_of_quiet (hregistry : next.registry = (h.registry.apply call).1)
    (hkept : next.subscriptions = h.subscriptions) (hends : ∀ s, call.ends s = false)
    (hbegun : call.begun h.registry = []) : h.Follows call next where
  registry := hregistry
  subscriptions := by simp [hkept, hends, hbegun]

theorem follows_create (h : Handle) (name text : String) :
    h.Follows (.create name text) (h.create name text).1 :=
  follows_of_quiet rfl rfl (fun _ => rfl) rfl

theorem follows_ingest (h : Handle) (device point : String) (t : Millis) (x : Float) :
    h.Follows (.ingest device point ⟨t, .number x⟩) (h.ingest device point t x).1 :=
  follows_of_quiet (by simp only [ingest, Registry.apply]) (by simp only [ingest])
    (fun _ => rfl) rfl

theorem follows_advance (h : Handle) (device point : String) (w : Millis) :
    h.Follows (.advance device point w) (h.advance (some device) (some point) w).1 :=
  follows_of_quiet (by simp only [advance, Registry.apply]) (by simp only [advance])
    (fun _ => rfl) rfl

theorem follows_advanceAll (h : Handle) (w : Millis) :
    h.Follows (.advanceAll w) (h.advance none none w).1 :=
  follows_of_quiet (by simp only [advance, Registry.apply]) (by simp only [advance])
    (fun _ => rfl) rfl

theorem follows_cleanUp (h : Handle) : h.Follows .cleanUp h.cleanUp.1 where
  registry := rfl
  subscriptions := by simp [cleanUp, Registry.Call.ends, Registry.Call.begun]

theorem follows_delete (hin : h.InOrder) (name : String) :
    h.Follows (.delete name) (h.delete name).1 := by
  have hentries := Registry.subscriptions_delete hin.consistent name
  obtain ⟨registry, answer, hdelete⟩ :
      ∃ registry answer, h.registry.delete name = (registry, answer) := ⟨_, _, rfl⟩
  constructor
  · cases answer <;> simp only [delete, Registry.apply, hdelete]
  · refine Eq.trans ?_ (List.append_nil _).symm
    cases answer with
    | ok _ =>
      simp only [delete, hdelete]
      rfl
    | error failure =>
      -- Without the topic the registry is as before, so no subscription names it.
      have hsame : registry = h.registry := by
        have herror := Registry.delete_of_error (congrArg Prod.snd hdelete)
        rwa [hdelete] at herror
      rw [hdelete, hsame, ← hin.mirrors] at hentries
      simp only [delete, hdelete]
      exact hentries

theorem subscribe_of_none {topic : String} (hfind : h.registry.topic? topic = none) :
    h.subscribe topic = (h, .error (.noTopic topic)) := by
  simp only [subscribe, Registry.subscribe, Registry.attach_of_none hfind]

theorem subscribe_of_some {topic : String} {p : Pipeline}
    (hfind : h.registry.topic? topic = some p) :
    h.subscribe topic =
      (⟨(h.registry.subscribe topic).1,
        h.subscriptions ++ [⟨.issue h.registry.issued, topic, true⟩]⟩,
        .ok (SubscriptionId.issue h.registry.issued).text) := by
  simp only [subscribe, Registry.subscribe, Registry.attach_of_some hfind]

theorem follows_subscribe (h : Handle) (topic : String) :
    h.Follows (.subscribe topic) (h.subscribe topic).1 := by
  cases hfind : h.registry.topic? topic with
  | none =>
    have hregistry : h.registry = (h.registry.apply (.subscribe topic)).1 := by
      simp only [Registry.apply, Registry.subscribe, Registry.attach_of_none hfind]
    rw [subscribe_of_none hfind]
    refine follows_of_quiet hregistry rfl (fun _ => rfl) ?_
    simp [Registry.Call.begun, Registry.nextEntry, hfind]
  | some p =>
    rw [subscribe_of_some hfind]
    constructor
    · rfl
    · simp [Registry.Call.ends, Registry.Call.begun, Registry.nextEntry, hfind]

/-- A handle knows the subscriptions that its registry knows. -/
theorem subscription_of_some (hin : h.InOrder) (hid : SubscriptionId.ofText? text = some id)
    {s : Subscription} (hentry : h.registry.subscription? id = some s) :
    h.subscription text = .ok s := by
  rw [Registry.subscription?, ← hin.mirrors] at hentry
  simp only [subscription, hid, hentry]

theorem subscription_of_none (hin : h.InOrder) (hid : SubscriptionId.ofText? text = some id)
    (hentry : h.registry.subscription? id = none) :
    h.subscription text = .error (Registry.noSubscription id) := by
  rw [Registry.subscription?, ← hin.mirrors] at hentry
  simp only [subscription, hid, hentry]

theorem unsubscribe_of_known (hin : h.InOrder) (hid : SubscriptionId.ofText? text = some id)
    {s : Subscription} (hentry : h.registry.subscription? id = some s) :
    h.unsubscribe text = (⟨(h.registry.unsubscribe id).1,
      h.subscriptions.filter fun t => t.id != id⟩, .ok 0) := by
  have hsid : s.id = id := ((Registry.subscription?_eq_some_iff hin.consistent).mp hentry).2
  obtain ⟨next, hnext⟩ := Registry.unsubscribe_of_known hentry
  rw [unsubscribe, subscription_of_some hin hid hentry]
  simp only [hsid, hnext]

theorem unsubscribe_of_unknown (hin : h.InOrder) (hid : SubscriptionId.ofText? text = some id)
    (hentry : h.registry.subscription? id = none) :
    h.unsubscribe text = (h, .error (Registry.noSubscription id)) := by
  rw [unsubscribe, subscription_of_none hin hid hentry]

theorem follows_unsubscribe (hin : h.InOrder) (hid : SubscriptionId.ofText? text = some id) :
    h.Follows (.unsubscribe id) (h.unsubscribe text).1 := by
  cases hentry : h.registry.subscription? id with
  | none =>
    have hregistry := Registry.unsubscribe_of_none hentry
    have hentries := h.registry.subscriptions_unsubscribe id
    rw [hregistry, ← hin.mirrors] at hentries
    rw [unsubscribe_of_unknown hin hid hentry]
    constructor
    · simp only [Registry.apply, hregistry]
    · exact hentries.trans (List.append_nil _).symm
  | some s =>
    rw [unsubscribe_of_known hin hid hentry]
    exact ⟨rfl, (List.append_nil _).symm⟩

theorem next_of_known (hin : h.InOrder) (hid : SubscriptionId.ofText? text = some id)
    {s : Subscription} (hentry : h.registry.subscription? id = some s) :
    h.next text = ({ h with registry := (h.registry.next id).1 },
      (h.registry.next id).2.map fun e => (Message.ofEvent e).encode) := by
  have hsid : s.id = id := ((Registry.subscription?_eq_some_iff hin.consistent).mp hentry).2
  rw [next, subscription_of_some hin hid hentry]
  simp only [hsid]

theorem next_of_unknown (hin : h.InOrder) (hid : SubscriptionId.ofText? text = some id)
    (hentry : h.registry.subscription? id = none) :
    h.next text = (h, .error (Registry.noSubscription id)) := by
  rw [next, subscription_of_none hin hid hentry]

theorem follows_next (hin : h.InOrder) (hid : SubscriptionId.ofText? text = some id) :
    h.Follows (.next id) (h.next text).1 := by
  cases hentry : h.registry.subscription? id with
  | none =>
    have hregistry : h.registry = (h.registry.apply (.next id)).1 := by
      simp only [Registry.apply, Registry.next, Registry.queueOf, hentry]
    rw [next_of_unknown hin hid hentry]
    exact follows_of_quiet hregistry rfl (fun _ => rfl) rfl
  | some s =>
    rw [next_of_known hin hid hentry]
    exact follows_of_quiet rfl rfl (fun _ => rfl) rfl

end Handle

namespace Session

variable {s : Session} {h : Handle} {calls : List Call}

/-- What a request asks of the registry, if its arguments are there and an identifier is one. -/
def Request.call? : Request → Option Registry.Call
  | .create name text =>
    name.text?.bind fun name => text.text?.bind fun text => some (.create name text)
  | .delete name => name.text?.bind fun name => some (.delete name)
  | .cleanUp => some .cleanUp
  | .subscribe topic => topic.text?.bind fun topic => some (.subscribe topic)
  | .unsubscribe id => id.text?.bind fun text => (SubscriptionId.ofText? text).map .unsubscribe
  | .next id => id.text?.bind fun text => (SubscriptionId.ofText? text).map .next
  | .ingest device point t x =>
    device.text?.bind fun device => point.text?.bind fun point =>
      some (.ingest device point ⟨t, .number x⟩)
  | .advance device point w =>
    match device.text?, point.text? with
    | some device, some point => some (.advance device point w)
    | none, none => some (.advanceAll w)
    | _, _ => none

/-- What a call asks of the registry of the session. -/
def Call.call? : Call → Option Registry.Call
  | .ask true request => request.call?
  | _ => none

/-- Only queues of the registry are subscribed. -/
theorem Request.isQueued_of_call? {request : Request} {call : Registry.Call}
    (h : request.call? = some call) : call.IsQueued := by
  cases call with
  | subscribeSink topic sink =>
    cases request with
    | advance device point w =>
      simp only [call?] at h
      split at h <;> cases h
    | _ => simp [call?, Option.bind_eq_some_iff] at h
  | _ => trivial

/-- A handle after it has followed a call, or as it was if there was none. -/
def Continues (h : Handle) (call : Option Registry.Call) (next : Handle) : Prop :=
  match call with
  | some call => h.Follows call next
  | none => next = h

/-- Without an argument that it needs, a request asks nothing of the registry. -/
theorem continues_given {a : Argument} {name : String}
    {f : String → Handle × Except Failure Returned} {call : String → Option Registry.Call}
    (hf : ∀ text, Continues h (call text) (f text).1) :
    Continues h (a.text?.bind call) (given h (required a name) f).1 := by
  cases htext : a.text? with
  | none =>
    rw [required_of_none htext]
    rfl
  | some text =>
    rw [required_of_some htext]
    exact hf text

theorem continues_counting {call : Option Registry.Call} {outcome : Handle × Except Failure Int}
    (hf : Continues h call outcome.1) : Continues h call (counting outcome).1 :=
  hf

theorem continues_telling {call : Option Registry.Call} {outcome : Handle × Except Failure String}
    (hf : Continues h call outcome.1) : Continues h call (telling outcome).1 :=
  hf

/-- A request is followed in both tables, or changes nothing. -/
theorem serve_continues (hin : h.InOrder) (request : Request) :
    Continues h request.call? (serve h request).1 := by
  cases request with
  | create name text =>
    exact continues_given fun name => continues_given fun text =>
      continues_counting (h.follows_create name text)
  | delete name =>
    exact continues_given fun name => continues_counting (Handle.follows_delete hin name)
  | cleanUp => exact continues_counting h.follows_cleanUp
  | subscribe topic =>
    exact continues_given fun topic => continues_telling (h.follows_subscribe topic)
  | unsubscribe a =>
    refine continues_given fun text => continues_counting ?_
    cases hid : SubscriptionId.ofText? text with
    | none => simp [Handle.unsubscribe, Handle.subscription, hid, Continues]
    | some id => exact Handle.follows_unsubscribe hin hid
  | next a =>
    refine continues_given fun text => continues_telling ?_
    cases hid : SubscriptionId.ofText? text with
    | none => simp [Handle.next, Handle.subscription, hid, Continues]
    | some id => exact Handle.follows_next hin hid
  | ingest device point t x =>
    exact continues_given fun device => continues_given fun point =>
      continues_counting (h.follows_ingest device point t x)
  | advance device point w =>
    refine continues_counting ?_
    rw [Request.call?]
    rcases device.text? with _ | device
    · rcases point.text? with _ | point
      · exact h.follows_advanceAll w
      · rfl
    · rcases point.text? with _ | point
      · rfl
      · exact h.follows_advance device point w

theorem Continues.inOrder {call : Option Registry.Call} {next : Handle}
    (hnext : Continues h call next) (hin : h.InOrder) (hqueued : ∀ c ∈ call, c.IsQueued) :
    next.InOrder := by
  cases call with
  | none =>
    rw [hnext]
    exact hin
  | some call => exact Handle.Follows.inOrder hnext hin (hqueued call rfl)

/-- The calls of a handle made one after the other are a history of its registry. -/
theorem Continues.registry {call : Option Registry.Call} {next : Handle}
    (hnext : Continues h call next) (calls : List Registry.Call) :
    (next.registry.run calls).1 = (h.registry.run (call.toList ++ calls)).1 := by
  cases call with
  | none => rw [hnext, Option.toList_none, List.nil_append]
  | some call =>
    have hregistry := Handle.Follows.registry hnext
    rw [hregistry, Option.toList_some, List.singleton_append, Registry.run_cons]

theorem serve_inOrder (hin : h.InOrder) (request : Request) : (serve h request).1.InOrder :=
  (serve_continues hin request).inOrder hin fun _ hcall => Request.isQueued_of_call? hcall

/-- A session whose registry, if there is one, is in order. -/
def InOrder (s : Session) : Prop :=
  ∀ h, s.handle = some h → h.InOrder

/-- Every call leaves a session in order. -/
theorem InOrder.apply (hin : s.InOrder) (call : Call) : (s.apply call).1.InOrder := by
  cases call with
  | new config =>
    intro h hs
    simp only [Session.apply] at hs
    cases hsettings : settingsOf config with
    | error failure =>
      rw [hsettings] at hs
      cases hs
    | ok settings =>
      rw [hsettings] at hs
      rw [← Option.some.inj hs]
      exact Handle.inOrder_new settings s.issued
  | free =>
    intro h hs
    cases hs
  | version => exact hin
  | ask passed request =>
    cases hs : s.handle with
    | none =>
      rw [apply_ask, ask_of_none hs]
      exact hin
    | some h =>
      cases passed with
      | false =>
        rw [apply_ask, ask_of_not_passed]
        exact hin
      | true =>
        intro next hnext
        rw [apply_ask, handle_ask hs] at hnext
        rw [← Option.some.inj hnext]
        exact serve_inOrder (hin h hs) request

theorem InOrder.run (hin : s.InOrder) (calls : List Call) : (s.run calls).1.InOrder := by
  induction calls generalizing s with
  | nil => exact hin
  | cons call calls ih => exact ih (hin.apply call)

theorem inOrder_initial : initial.InOrder := by
  intro h hs
  cases hs

/-- A call that leaves the caller with the registry. -/
def Call.KeepsRegistry : Call → Prop
  | .ask _ _ | .version => True
  | .new _ | .free => False

/-- Such a call is followed in both tables, or changes nothing in them. -/
theorem apply_continues {call : Call} (hkeeps : call.KeepsRegistry) (hs : s.handle = some h)
    (hin : h.InOrder) :
    ∃ next, (s.apply call).1.handle = some next ∧ Continues h call.call? next := by
  cases call with
  | new config => exact hkeeps.elim
  | free => exact hkeeps.elim
  | version => exact ⟨h, hs, rfl⟩
  | ask passed request =>
    cases passed with
    | false =>
      rw [apply_ask, ask_of_not_passed]
      exact ⟨h, hs, rfl⟩
    | true => exact ⟨(serve h request).1, handle_ask hs request, serve_continues hin request⟩

/-- What callers ask of one registry comes to a history of this registry. -/
theorem run_continues (hkeeps : ∀ call ∈ calls, call.KeepsRegistry) (hs : s.handle = some h)
    (hin : s.InOrder) :
    ∃ next, (s.run calls).1.handle = some next ∧
      next.registry = (h.registry.run (calls.filterMap Call.call?)).1 := by
  induction calls generalizing s h with
  | nil => exact ⟨h, hs, rfl⟩
  | cons call calls ih =>
    obtain ⟨next, hnext, hcontinues⟩ :=
      apply_continues (hkeeps call List.mem_cons_self) hs (hin h hs)
    obtain ⟨final, hfinal, hregistry⟩ :=
      ih (fun c hc => hkeeps c (List.mem_cons_of_mem call hc)) hnext (hin.apply call)
    refine ⟨final, hfinal, ?_⟩
    have hsplit : (call :: calls).filterMap Call.call? =
        call.call?.toList ++ calls.filterMap Call.call? := by
      rw [List.filterMap_cons]
      cases call.call? <;> rfl
    rw [hregistry, hcontinues.registry, hsplit]

end Session

end TelemetryBands
