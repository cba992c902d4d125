import TelemetryBands.Proofs.Delivery.Identifiers
import TelemetryBands.Proofs.Json.Printing
import TelemetryBands.Proofs.Publication.Grouping
import TelemetryBands.Proofs.Session.Answers
import TelemetryBands.Proofs.Text.Encoding

/-!
# Texts that can be handed out

A zero character ends a text for a caller, so only a text without one can be handed out. Messages
and identifiers have none. A failure quotes what the call was given: where no argument has a zero
byte, none but the failures of creating a topic can have one, for these quote texts that a document
wrote with escapes.
-/

namespace TelemetryBands

/-- A text without a zero character. -/
def Text.ZeroFree (s : String) : Prop :=
  Char.ofNat 0 ∉ s.toList

instance : DecidablePred Text.ZeroFree := fun s =>
  inferInstanceAs (Decidable (Char.ofNat 0 ∉ s.toList))

/-- An argument without a zero byte. -/
def Argument.ZeroFree (a : Argument) : Prop :=
  ∀ bytes ∈ a, 0 ∉ bytes

variable {s t name topic device point : String} {id : SubscriptionId} {f : Failure} {r : Registry}
  {α β : Type}

namespace Text

theorem ZeroFree.append (hs : ZeroFree s) (ht : ZeroFree t) : ZeroFree (s ++ t) := by
  rw [ZeroFree, String.toList_append, List.mem_append]
  exact fun h => h.elim hs ht

/-- The text of a message can be handed out. -/
theorem zeroFree_encode (m : Message) : ZeroFree m.encode := fun hmem =>
  absurd (Json.le_of_mem_compact m.legible_toJson _ hmem) (by decide)

/-- The text of an identifier can be handed out. -/
theorem zeroFree_id (id : SubscriptionId) : ZeroFree id.text := by
  have hdigit : ∀ d < 16, Nat.digitChar d ≠ Char.ofNat 0 := by decide
  have htext : id.text.toList = ['-'].intercalate id.groups := String.toList_ofList
  rw [ZeroFree, htext]
  intro hmem
  rcases mem_intercalate hmem with hzero | ⟨piece, hpiece, hzero⟩
  · cases hzero
  · have hdigits : Char.ofNat 0 ∈ hexDigits 32 id.number := by
      rw [← SubscriptionId.flatten_groups]
      exact List.mem_flatten_of_mem hpiece hzero
    obtain ⟨d, hd, heq⟩ := exists_of_mem_hexDigits hdigits
    exact hdigit d hd heq.symm

end Text

open Text

namespace Session

theorem handedOut?_eq (text : String) :
    handedOut? text = if ZeroFree text then some text else none := by
  unfold handedOut?
  by_cases hfree : ZeroFree text
  · rw [if_pos hfree, if_neg (mt List.contains_iff_mem.mp hfree)]
  · rw [if_neg hfree, if_pos (List.contains_iff_mem.mpr (Decidable.not_not.mp hfree))]

/-- A text without a zero character is told as it is. -/
theorem telling_of_zeroFree (hfree : ZeroFree s) (h : Handle) :
    telling (h, .ok s) = (h, .ok (.text (some s))) := by
  simp only [telling, Except.map, handedOut?_eq, if_pos hfree]

end Session

/-- The text of an argument without a zero byte has no zero character. -/
theorem Argument.ZeroFree.text {a : Argument} (ha : a.ZeroFree) (h : a.text? = some s) :
    Text.ZeroFree s := by
  obtain ⟨bytes, rfl, hbytes⟩ := Option.bind_eq_some_iff.mp h
  rw [Feed.textOf?_eq_some_iff] at hbytes
  intro hmem
  refine ha bytes rfl ?_
  rw [hbytes]
  exact Feed.mem_bytesOf_of_mem (by decide) hmem

/-- A text without a zero character is passed as an argument without a zero byte. -/
theorem Argument.zeroFree_ofText (h : Text.ZeroFree s) : (ofText s).ZeroFree := by
  intro bytes hbytes hzero
  obtain rfl := Option.some.inj hbytes
  rw [String.toUTF8_eq_toByteArray, Feed.toList_toByteArray] at hzero
  exact h (Feed.mem_of_mem_bytesOf (by decide) hzero)

/-- What stands before the detail of a failure has no zero character. -/
theorem Failure.zeroFree_message (h : ZeroFree f.detail) : ZeroFree f.message := by
  have hprefix : ∀ {before : String}, ZeroFree before → ZeroFree (before ++ f.detail) :=
    fun hbefore => hbefore.append h
  unfold message
  split
  case h_9 => decide +kernel
  all_goals exact hprefix (by decide +kernel)

/-- An answer whose failure, if it is one, has a text that can be handed out. -/
def Tells (answer : Except Failure α) : Prop :=
  ∀ failure, answer = .error failure → ZeroFree failure.message

namespace Tells

theorem ok (a : α) : Tells (.ok a) :=
  nofun

theorem error (h : ZeroFree f.message) : Tells (.error f : Except Failure α) := by
  intro failure heq
  obtain rfl := Except.error.inj heq
  exact h

theorem map {answer : Except Failure α} (h : Tells answer) (g : α → β) : Tells (answer.map g) := by
  cases answer with
  | ok a => exact ok _
  | error failure => exact error (h failure rfl)

end Tells

/-- What can be wrong with two names. -/
theorem Endpoint.flaw_cases {scope : Scope} {flaw : Flaw}
    (h : resolve scope device point = .error flaw) :
    flaw = .emptyPoint ∨ flaw = .malformedDevice device ∨ flaw = .tooManyComponents device := by
  unfold resolve at h
  simp only at h
  split at h
  · exact Or.inl (Except.error.inj h).symm
  · split at h
    · exact Or.inr (Or.inl (Except.error.inj h).symm)
    · split at h
      case h_4 => exact Or.inr (Or.inr (Except.error.inj h).symm)
      all_goals cases h

namespace Registry

/-- A topic that is not there is named. -/
theorem tells_topic (h : ZeroFree name) : Tells (r.topic name) := by
  unfold topic
  split
  · exact Tells.ok _
  · refine Tells.error (Failure.zeroFree_message ?_)
    exact ((by decide : ZeroFree "topic '").append h).append (by decide)

theorem tells_delete (h : ZeroFree name) : Tells (r.delete name).2 := by
  unfold delete
  cases htopic : r.topic name with
  | error failure => exact Tells.error (r.tells_topic h failure htopic)
  | ok p => exact Tells.ok _

theorem tells_subscribe (h : ZeroFree topic) : Tells (r.subscribe topic).2 := by
  unfold subscribe attach
  cases htopic : r.topic topic with
  | error failure => exact Tells.error (r.tells_topic h failure htopic)
  | ok p => exact Tells.ok _

/-- A subscription that is not there is named by its identifier. -/
theorem zeroFree_noSubscription (id : SubscriptionId) : ZeroFree (noSubscription id).message :=
  Failure.zeroFree_message ((by decide : ZeroFree "subscription ").append (zeroFree_id id))

theorem zeroFree_notQueued (id : SubscriptionId) : ZeroFree (notQueued id).message :=
  Failure.zeroFree_message
    (((by decide : ZeroFree "subscription ").append (zeroFree_id id)).append (by decide))

theorem tells_unsubscribe (id : SubscriptionId) : Tells (r.unsubscribe id).2 := by
  unfold unsubscribe
  split
  · exact Tells.error (zeroFree_noSubscription id)
  · simp only
    split <;> exact Tells.ok _

theorem tells_queueOf (id : SubscriptionId) : Tells (r.queueOf id) := by
  unfold queueOf
  split
  · exact Tells.error (zeroFree_noSubscription id)
  · split
    · split
      · exact Tells.error (zeroFree_noSubscription id)
      · split
        · exact Tells.error (zeroFree_noSubscription id)
        · split
          · exact Tells.error (zeroFree_notQueued id)
          · exact Tells.ok _
    · exact Tells.error (zeroFree_notQueued id)

/-- The wait for a message ends with a fixed text. -/
theorem tells_pop (q : Queue) : Tells q.pop.2 := by
  unfold Queue.pop Queue.tryPop
  cases q.events with
  | cons e events => exact Tells.ok _
  | nil =>
    cases q.closed with
    | true => exact Tells.error (f := Queue.ended) (by decide)
    | false => exact Tells.error (f := .timedOut) (by decide)

theorem tells_next (id : SubscriptionId) : Tells (r.next id).2 := by
  unfold next
  cases hqueue : r.queueOf id with
  | error failure => exact Tells.error (r.tells_queueOf id failure hqueue)
  | ok found =>
    obtain ⟨p, s, q⟩ := found
    exact tells_pop q

/-- A device that is no device is quoted, and the name of its endpoint never is. -/
theorem tells_endpointOf (h : ZeroFree device) : Tells (r.endpointOf device point) := by
  unfold endpointOf
  cases hresolve : Endpoint.resolve r.settings.scope device point with
  | ok endpoint => exact Tells.ok _
  | error flaw =>
    refine Tells.error (Failure.zeroFree_message ?_)
    rcases Endpoint.flaw_cases hresolve with rfl | rfl | rfl
    · decide
    · exact ((by decide : ZeroFree "Malformed deviceName '").append h).append (by decide)
    · exact ((by decide : ZeroFree "deviceName '").append h).append (by decide)

theorem tells_ingest (h : ZeroFree device) (point : String) (sample : Sample) :
    Tells (r.ingest device point sample).2 := by
  unfold ingest
  cases hendpoint : r.endpointOf device point with
  | error failure => exact Tells.error (r.tells_endpointOf h failure hendpoint)
  | ok endpoint => exact Tells.ok _

theorem tells_advance (h : ZeroFree device) (point : String) (w : Millis) :
    Tells (r.advance device point w).2 := by
  unfold advance
  cases hendpoint : r.endpointOf device point with
  | error failure => exact Tells.error (r.tells_endpointOf h failure hendpoint)
  | ok endpoint => exact Tells.ok _

end Registry

end TelemetryBands
