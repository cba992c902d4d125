import Mathlib.Data.List.Induction
import Mathlib.Data.List.Nodup
import TelemetryBands.Message
import TelemetryBands.Proofs.Json.Numerals

/-!
# Events of one time in one message

Events are added one by one to the messages of their times. After every event the messages stand in
the order in which their times came up first, and each holds the values of the events of its time in
the order of the events. Nothing is lost and nothing is added. Every message is a legible document.
-/

namespace TelemetryBands

theorem DataPoint.legible_toJson (d : DataPoint) : d.toJson.Legible := by
  apply Json.legible_record
  simp only [List.forall_mem_cons]
  exact ⟨Json.legible_ofText _, Json.legible_ofText _, Json.legible_ofFloat _, by simp⟩

namespace Message

theorem legible_toJson (m : Message) : m.toJson.Legible := by
  apply Json.legible_record
  simp only [List.forall_mem_cons]
  refine ⟨Millis.legible_toJson _, Json.legible_array ?_, by simp⟩
  rw [List.forall_mem_map]
  exact fun d _ => d.legible_toJson

variable {events : List Event} {e : Event} {messages : List Message} {t : Millis}

/-- The values of the events of a time, in the order of the events. -/
def dataAt (events : List Event) (t : Millis) : List DataPoint :=
  (events.filter fun e => e.windowEnd = t).map DataPoint.ofEvent

theorem dataAt_append (events : List Event) (e : Event) (t : Millis) :
    dataAt (events ++ [e]) t =
      dataAt events t ++ if e.windowEnd = t then [DataPoint.ofEvent e] else [] := by
  rw [dataAt, List.filter_append, List.map_append, dataAt, List.filter_singleton]
  split <;> simp_all

theorem dataAt_of_notMem (h : t ∉ events.map Event.windowEnd) : dataAt events t = [] := by
  rw [dataAt, List.map_eq_nil_iff, List.filter_eq_nil_iff]
  intro e he heq
  exact h (List.mem_map.mpr ⟨e, he, of_decide_eq_true heq⟩)

/-- Messages that hold the values of events: one message for each of their times, in the order in
which the times came up first, with the values of its time. -/
structure Groups (events : List Event) (messages : List Message) : Prop where
  ordered : (messages.map time).Pairwise fun s t =>
    (events.map Event.windowEnd).idxOf s < (events.map Event.windowEnd).idxOf t
  mem_times : ∀ t, t ∈ messages.map time ↔ t ∈ events.map Event.windowEnd
  data_eq : ∀ m ∈ messages, m.data = dataAt events m.time

theorem Groups.nodup_times (h : Groups events messages) : (messages.map time).Nodup := by
  refine h.ordered.imp fun {s t} hlt heq => ?_
  rw [heq] at hlt
  exact Nat.lt_irrefl _ hlt

/-- What adding an event does: a message of its time gets one more value, or a message follows. -/
theorem addEvent_cases (e : Event) (messages : List Message) :
    (e.windowEnd ∉ messages.map time ∧ addEvent e messages = messages ++ [ofEvent e]) ∨
      ∃ before m after, messages = before ++ m :: after ∧ m.time = e.windowEnd ∧
        addEvent e messages = before ++ { m with data := m.data ++ [.ofEvent e] } :: after := by
  induction messages with
  | nil => exact Or.inl ⟨List.not_mem_nil, rfl⟩
  | cons m messages ih =>
    by_cases hm : m.time = e.windowEnd
    · exact Or.inr ⟨[], m, messages, rfl, hm, by rw [addEvent, if_pos hm]; rfl⟩
    · rw [addEvent, if_neg hm]
      obtain ⟨hnot, hadd⟩ | ⟨before, m', after, rfl, hm', hadd⟩ := ih
      · refine Or.inl ⟨?_, by rw [hadd]; rfl⟩
        rw [List.map_cons, List.mem_cons, not_or]
        exact ⟨Ne.symm hm, hnot⟩
      · exact Or.inr ⟨m :: before, m', after, rfl, hm', by rw [hadd]; rfl⟩

/-- One more event keeps the places of the times that came up before it. -/
theorem Groups.ordered_append (h : Groups events messages) (e : Event) :
    (messages.map time).Pairwise fun s t =>
      ((events ++ [e]).map Event.windowEnd).idxOf s <
        ((events ++ [e]).map Event.windowEnd).idxOf t := by
  refine h.ordered.imp_of_mem fun {s t} hs ht hlt => ?_
  rw [List.map_append, List.idxOf_append_of_mem ((h.mem_times s).mp hs),
    List.idxOf_append_of_mem ((h.mem_times t).mp ht)]
  exact hlt

theorem Groups.data_of_ne (h : Groups events messages) {m : Message} (hm : m ∈ messages)
    (hne : m.time ≠ e.windowEnd) : m.data = dataAt (events ++ [e]) m.time := by
  rw [dataAt_append, if_neg (Ne.symm hne), List.append_nil]
  exact h.data_eq m hm

/-- An event of a time that has not come up is grouped by a message that follows. -/
theorem Groups.follow (h : Groups events messages) (hnew : e.windowEnd ∉ messages.map time) :
    Groups (events ++ [e]) (messages ++ [ofEvent e]) := by
  have hunseen : e.windowEnd ∉ events.map Event.windowEnd := fun hmem =>
    hnew ((h.mem_times _).mpr hmem)
  refine ⟨?_, fun t => by simp [h.mem_times t, ofEvent], fun m hm => ?_⟩
  · rw [List.map_append (f := time), List.pairwise_append]
    refine ⟨h.ordered_append e, List.pairwise_singleton _ _, fun s hs t ht => ?_⟩
    obtain rfl := List.mem_singleton.mp ht
    have hs := (h.mem_times s).mp hs
    rw [List.map_append, List.idxOf_append_of_mem hs]
    change _ < List.idxOf e.windowEnd _
    rw [List.idxOf_append_of_notMem hunseen]
    exact Nat.lt_add_right _ (List.idxOf_lt_length_of_mem hs)
  · rcases List.mem_append.mp hm with hm | hm
    · exact h.data_of_ne hm fun heq => hnew (heq ▸ List.mem_map_of_mem hm)
    · obtain rfl := List.mem_singleton.mp hm
      change [DataPoint.ofEvent e] = dataAt (events ++ [e]) e.windowEnd
      rw [dataAt_append, dataAt_of_notMem hunseen, if_pos rfl, List.nil_append]

/-- An event of a time that has come up is grouped by one more value in the message of its time. -/
theorem Groups.extend {before after : List Message} {m : Message}
    (h : Groups events (before ++ m :: after)) (hm : m.time = e.windowEnd) :
    Groups (events ++ [e])
      (before ++ { m with data := m.data ++ [.ofEvent e] } :: after) := by
  have htimes : (before ++ { m with data := m.data ++ [.ofEvent e] } :: after).map time =
      (before ++ m :: after).map time := by
    simp
  have hseen : e.windowEnd ∈ events.map Event.windowEnd :=
    (h.mem_times _).mp (List.mem_map.mpr ⟨m, by simp, hm⟩)
  have hdistinct := h.nodup_times
  rw [List.map_append, List.map_cons, List.nodup_middle, List.nodup_cons, hm, ← List.map_append]
    at hdistinct
  have hside : ∀ m' ∈ before ++ after, m'.data = dataAt (events ++ [e]) m'.time := by
    intro m' hm'
    refine h.data_of_ne ?_ fun heq => hdistinct.1 (heq ▸ List.mem_map_of_mem hm')
    rw [List.mem_append, List.mem_cons]
    exact (List.mem_append.mp hm').imp id Or.inr
  refine ⟨htimes ▸ h.ordered_append e, fun t => ?_, fun m' hm' => ?_⟩
  · rw [htimes, h.mem_times t, List.map_append, List.mem_append]
    refine ⟨Or.inl, fun ht => ht.elim id fun ht => ?_⟩
    rwa [List.mem_singleton.mp ht]
  · rcases List.mem_append.mp hm' with hmem | hmem
    · exact hside m' (List.mem_append_left _ hmem)
    · rcases List.mem_cons.mp hmem with rfl | hmem
      · rw [dataAt_append, if_pos hm.symm, ← h.data_eq m (by simp)]
      · exact hside m' (List.mem_append_right _ hmem)

/-- Adding an event keeps the messages grouped. -/
theorem Groups.addEvent (h : Groups events messages) (e : Event) :
    Groups (events ++ [e]) (addEvent e messages) := by
  obtain ⟨hnew, hadd⟩ | ⟨before, m, after, rfl, hm, hadd⟩ := addEvent_cases e messages
  · rw [hadd]
    exact h.follow hnew
  · rw [hadd]
    exact h.extend hm

/-- The messages of a list of events hold the values of the events. -/
theorem groups_grouped (events : List Event) : Groups events (grouped events) := by
  induction events using List.reverseRecOn with
  | nil => exact ⟨List.Pairwise.nil, fun _ => Iff.rfl, List.forall_mem_nil _⟩
  | append_singleton events e ih =>
    rw [grouped, List.foldl_append]
    exact ih.addEvent e

/-- The values of messages, each with the time of its message. -/
def timed (messages : List Message) : List (Millis × DataPoint) :=
  messages.flatMap fun m => m.data.map fun d => (m.time, d)

theorem timed_append (first second : List Message) :
    timed (first ++ second) = timed first ++ timed second :=
  List.flatMap_append

theorem timed_addEvent (e : Event) (messages : List Message) :
    (timed (addEvent e messages)).Perm (timed messages ++ timed [ofEvent e]) := by
  obtain ⟨-, hadd⟩ | ⟨before, m, after, rfl, hm, hadd⟩ := addEvent_cases e messages
  · rw [hadd, timed_append]
  · have hmessage : ∀ m' : Message, timed (before ++ m' :: after) =
        timed before ++ (m'.data.map fun d => (m'.time, d)) ++ timed after := by
      intro m'
      rw [timed_append, List.append_assoc]
      rfl
    have hvalue : timed [ofEvent e] = [DataPoint.ofEvent e].map fun d => (m.time, d) := by
      rw [hm]
      rfl
    rw [hadd, hmessage, hmessage, hvalue, List.map_append, List.append_assoc, List.append_assoc,
      List.append_assoc, List.append_assoc]
    exact (List.perm_append_comm.append_left _).append_left _

/-- Grouped or one by one, events give the same values with the same times. -/
theorem timed_grouped (events : List Event) :
    (timed (grouped events)).Perm (timed (events.map ofEvent)) := by
  induction events using List.reverseRecOn with
  | nil => exact List.Perm.refl _
  | append_singleton events e ih =>
    rw [grouped, List.foldl_append, List.map_append, timed_append]
    exact (timed_addEvent e _).trans (ih.append_right _)

end Message

end TelemetryBands
