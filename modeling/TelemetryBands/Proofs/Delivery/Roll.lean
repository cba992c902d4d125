import Mathlib.Data.List.Nodup
import Mathlib.Data.List.Perm.Basic
import TelemetryBands.Proofs.Topic.Ruling

/-!
# The roll of a dispatcher

The roll says who subscribes, who did, and how often the sink of each was closed. Events and reading
leave it as it is; it changes only when someone comes or goes, and whoever goes has the sink closed.
Everyone on the roll has a serial number of their own, so changing the sink under a serial number
changes one sink.
-/

namespace TelemetryBands

/-- An entry on the roll of a dispatcher: a subscriber and how often its sink was closed. -/
structure Card where
  id : SubscriptionId
  serial : Nat
  closes : Nat
  deriving DecidableEq

/-- The entry of a subscriber. -/
def Subscriber.card (s : Subscriber) : Card :=
  ⟨s.id, s.serial, s.closes⟩

/-- The entry after the sink was closed once more. -/
def Card.close (c : Card) : Card :=
  { c with closes := c.closes + 1 }

/-- Who subscribes, and who did. -/
structure Roll where
  present : List Card
  departed : List Card
  /-- The serial number of the next subscriber. -/
  nextSerial : Nat
  deriving DecidableEq

namespace Roll

/-- Everyone on a roll. -/
def everyone (r : Roll) : List Card :=
  r.departed ++ r.present

/-- Someone new is present. -/
def add (r : Roll) (id : SubscriptionId) : Roll :=
  { r with
    present := r.present ++ [⟨id, r.nextSerial, 0⟩]
    nextSerial := r.nextSerial + 1 }

/-- The first one present with an identifier departs. -/
def remove (r : Roll) (id : SubscriptionId) : Roll :=
  match r.present.find? fun c => c.id == id with
  | none => r
  | some c =>
    { r with
      present := r.present.eraseP fun c => c.id == id
      departed := r.departed ++ [c.close] }

/-- All depart. -/
def closeAll (r : Roll) : Roll :=
  { r with present := [], departed := r.departed ++ r.present.map Card.close }

section Everyone

variable {α : Type} (key : Card → α)

/-- Who comes is the only one that joins the roll. -/
theorem everyone_add_perm (r : Roll) (id : SubscriptionId) :
    (r.add id).everyone.Perm (⟨id, r.nextSerial, 0⟩ :: r.everyone) := by
  simp only [everyone, add, ← List.append_assoc]
  exact List.perm_append_singleton _ _

/-- Who goes stays on the roll, apart from the sink that is closed. -/
theorem everyone_remove_perm (r : Roll) (hkey : ∀ c, key c.close = key c) (id : SubscriptionId) :
    ((r.remove id).everyone.map key).Perm (r.everyone.map key) := by
  unfold remove
  cases hfind : r.present.find? fun c => c.id == id with
  | none => exact List.Perm.refl _
  | some c =>
    obtain ⟨hc, before, after, hpresent, hbefore⟩ := List.find?_eq_some_iff_append.mp hfind
    have hnot : ∀ x ∈ before, ¬ (x.id == id) = true := by simpa using hbefore
    have herase : (before ++ c :: after).eraseP (fun c => c.id == id) = before ++ after := by
      rw [List.eraseP_append_right _ hnot]
      simp [hc]
    simp only [everyone, hpresent, herase, List.map_append, List.map_cons, List.append_assoc,
      List.singleton_append, hkey]
    apply List.Perm.append_left
    exact List.perm_middle.symm

/-- So do all when all go. -/
theorem everyone_closeAll (r : Roll) (hkey : ∀ c, key c.close = key c) :
    r.closeAll.everyone.map key = r.everyone.map key := by
  simp only [everyone, closeAll, List.append_nil, List.map_append, List.map_map,
    Function.comp_def, hkey]

end Everyone

/-- Everyone has a serial number of their own, and the next one is free. -/
structure Numbered (r : Roll) : Prop where
  single : (r.everyone.map Card.serial).Nodup
  below : ∀ n ∈ r.everyone.map Card.serial, n < r.nextSerial

namespace Numbered

variable {r : Roll}

theorem empty : (⟨[], [], 0⟩ : Roll).Numbered where
  single := List.nodup_nil
  below := List.forall_mem_nil _

theorem add (h : r.Numbered) (id : SubscriptionId) : (r.add id).Numbered := by
  have hserials := (r.everyone_add_perm id).map Card.serial
  constructor
  · rw [hserials.nodup_iff, List.map_cons, List.nodup_cons]
    exact ⟨fun hmem => Nat.lt_irrefl _ (h.below _ hmem), h.single⟩
  · intro n hn
    rw [hserials.mem_iff, List.map_cons, List.mem_cons] at hn
    rcases hn with rfl | hn
    · exact Nat.lt_succ_self _
    · exact Nat.lt_succ_of_lt (h.below n hn)

theorem remove (h : r.Numbered) (id : SubscriptionId) : (r.remove id).Numbered := by
  have hserials := r.everyone_remove_perm Card.serial (fun _ => rfl) id
  have hnext : (r.remove id).nextSerial = r.nextSerial := by
    unfold Roll.remove
    split <;> rfl
  constructor
  · rw [hserials.nodup_iff]
    exact h.single
  · intro n hn
    rw [hnext]
    exact h.below n (hserials.mem_iff.mp hn)

end Numbered

end Roll

namespace Dispatcher

/-- The roll of a dispatcher. -/
def roll (d : Dispatcher) : Roll :=
  ⟨d.subscribers.map Subscriber.card, d.departed.map Subscriber.card, d.nextSerial⟩

theorem roll_everyone (d : Dispatcher) : d.roll.everyone = d.everyone.map Subscriber.card := by
  rw [Roll.everyone, everyone, List.map_append]
  rfl

@[simp] theorem roll_dispatch (d : Dispatcher) (e : Event) : (d.dispatch e).1.roll = d.roll := by
  simp only [roll, dispatch_fst, List.map_map]
  rfl

/-- Events leave the roll as it is. -/
@[simp] theorem roll_dispatchAll (d : Dispatcher) (events : List Event) :
    (d.dispatchAll events).roll = d.roll := by
  unfold dispatchAll
  induction events generalizing d with
  | nil => rfl
  | cons e events ih => rw [List.foldl_cons, ih, roll_dispatch]

/-- Reading from a queue leaves the roll as it is. -/
@[simp] theorem roll_changeSink (d : Dispatcher) (serial : Nat) (sink : Sink) :
    (d.changeSink serial sink).roll = d.roll := by
  have hcard : ∀ s : Subscriber,
      (if s.serial = serial then { s with sink } else s).card = s.card := by
    intro s
    split <;> rfl
  simp only [roll, changeSink, List.map_map, Function.comp_def, hcard]

@[simp] theorem roll_add (d : Dispatcher) (id : SubscriptionId) (sink : Sink) :
    (d.add id sink).roll = d.roll.add id := by
  simp [roll, add, Roll.add, Subscriber.card]

/-- Whoever unsubscribes departs, and the sink is closed. -/
@[simp] theorem roll_remove (d : Dispatcher) (id : SubscriptionId) :
    (d.remove id).1.roll = d.roll.remove id := by
  have hfind : d.roll.present.find? (fun c => c.id == id) = (d.find? id).map Subscriber.card := by
    simp only [roll, find?, List.find?_map]
    rfl
  unfold Roll.remove remove
  rw [hfind]
  cases d.find? id with
  | none => rfl
  | some s =>
    simp only [Option.map_some, roll, List.map_append, List.map_cons, List.map_nil]
    congr 1
    rw [List.eraseP_map]
    rfl

/-- All depart, and every sink is closed. -/
@[simp] theorem roll_closeAll (d : Dispatcher) :
    d.closeAll.roll = d.roll.closeAll := by
  simp only [roll, closeAll, Roll.closeAll, List.map_append, List.map_map, List.map_nil]
  rfl

/-- A sink that is put back where it was leaves the dispatcher as it was. -/
theorem changeSink_self {d : Dispatcher} {s : Subscriber} (h : d.roll.Numbered)
    (hs : s ∈ d.subscribers) : d.changeSink s.serial s.sink = d := by
  have hsingle : (d.everyone.map Subscriber.serial).Nodup := by
    have hserials := h.single
    rw [roll_everyone, List.map_map] at hserials
    exact hserials
  have hsame : ∀ x ∈ d.everyone,
      (if x.serial = s.serial then { x with sink := s.sink } else x) = x := by
    intro x hx
    split
    · rename_i hserial
      rw [List.inj_on_of_nodup_map hsingle hx (List.mem_append_right _ hs) hserial]
    · rfl
  have hsubscribers := List.map_congr_left (g := id)
    fun x hx => hsame x (List.mem_append_right d.departed hx)
  have hdeparted := List.map_congr_left (g := id)
    fun x hx => hsame x (List.mem_append_left d.subscribers hx)
  rw [changeSink, hsubscribers, hdeparted, List.map_id, List.map_id]

end Dispatcher

end TelemetryBands
