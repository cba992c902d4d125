import TelemetryBands.Proofs.Topic.Mirroring
import TelemetryBands.Proofs.Topic.Ticking

/-!
# Topics and those who listen to them

Samples, watermarks and snapshots make a topic work. Its subscribers have no part in that: whoever
they are, the topic does the same, and they are handed its events one after the other. Work changes
neither what a topic is nor who subscribes to it.
-/

namespace TelemetryBands.Pipeline

/-- A call that makes a topic work: it leaves the topic and its subscribers in their places. -/
def Call.IsWork : Call → Prop
  | .ingest _ | .advance _ | .load _ => True
  | .subscribe _ _ | .unsubscribe _ | .shutDown => False

variable {p : Pipeline} {call : Call}

theorem identity_advance (p : Pipeline) (w : Millis) : (p.advance w).1.identity = p.identity :=
  p.advance_cases (motive := fun q => q.1.identity = p.identity) w (fun _ => rfl) fun _ => rfl

theorem identity_follow (p : Pipeline) (t : Millis) : (p.follow t).1.identity = p.identity :=
  p.follow_cases (motive := fun q => q.1.identity = p.identity) t rfl
    (identity_advance { p with latestSeen := some (p.latestWith t) })

theorem identity_ingest (p : Pipeline) (s : Sample) : (p.ingest s).1.identity = p.identity :=
  p.ingest_cases (motive := fun q => q.1.identity = p.identity) s (fun _ => rfl) (fun _ _ => rfl)
    fun _ _ => (p.offered s (p.countsWith s)).identity_follow s.time

theorem identity_restore (p : Pipeline) (s : Snapshot) : (p.restore s).identity = p.identity := by
  unfold restore
  cases s.watermark <;> rfl

/-- Work does not change what a topic is. -/
theorem identity_apply (h : call.IsWork) : (p.apply call).1.identity = p.identity := by
  cases call with
  | ingest s => exact p.identity_ingest s
  | advance w => exact p.identity_advance w
  | load text =>
    simp only [apply, load]
    cases Snapshot.load text with
    | error failure => rfl
    | ok s => exact p.identity_restore s
  | _ => exact h.elim

/-- A topic with other subscribers. -/
def heardBy (p : Pipeline) (d : Dispatcher) : Pipeline :=
  { p with dispatcher := d }

theorem advance_heardBy (p : Pipeline) (d : Dispatcher) (w : Millis) :
    (p.heardBy d).advance w =
      ((p.advance w).1.heardBy (d.dispatchAll (p.advance w).2.events), (p.advance w).2) :=
  p.advance_dispatcher d w

theorem follow_heardBy (p : Pipeline) (d : Dispatcher) (t : Millis) :
    (p.heardBy d).follow t =
      ((p.follow t).1.heardBy (d.dispatchAll (p.follow t).2.events), (p.follow t).2) := by
  cases hpolicy : p.policy with
  | manual =>
    have hpolicy' : (p.heardBy d).policy = .manual := hpolicy
    simp only [follow, hpolicy, hpolicy']
    rfl
  | eventTime lateness =>
    have hpolicy' : (p.heardBy d).policy = .eventTime lateness := hpolicy
    rw [follow_of_eventTime hpolicy, follow_of_eventTime hpolicy']
    exact advance_heardBy { p with latestSeen := some (p.latestWith t) } d _

theorem ingest_heardBy (p : Pipeline) (d : Dispatcher) (s : Sample) :
    (p.heardBy d).ingest s =
      ((p.ingest s).1.heardBy (d.dispatchAll (p.ingest s).2.2.events), (p.ingest s).2) := by
  cases hdeleted : p.deleted with
  | true =>
    have hdeleted' : (p.heardBy d).deleted = true := hdeleted
    rw [ingest_of_deleted hdeleted, ingest_of_deleted hdeleted']
    rfl
  | false =>
    have hdeleted' : (p.heardBy d).deleted = false := hdeleted
    cases hin : p.spec.inRange s.time with
    | false =>
      have hin' : (p.heardBy d).spec.inRange s.time = false := hin
      rw [ingest_of_outOfRange hdeleted hin, ingest_of_outOfRange hdeleted' hin']
      rfl
    | true =>
      have hin' : (p.heardBy d).spec.inRange s.time = true := hin
      have hfollow := (p.offered s (p.countsWith s)).follow_heardBy d s.time
      rw [ingest_eq hdeleted hin, ingest_eq hdeleted' hin']
      simp only [Effect.andThen, List.nil_append]
      have hoffered : (p.heardBy d).offered s ((p.heardBy d).countsWith s) =
          (p.offered s (p.countsWith s)).heardBy d := rfl
      rw [hoffered, hfollow]
      rfl

theorem restore_heardBy (p : Pipeline) (d : Dispatcher) (s : Snapshot) :
    (p.heardBy d).restore s = (p.restore s).heardBy d := by
  unfold restore
  cases s.watermark <;> rfl

/-- A topic works whoever listens to it, and hands its events to those who do. -/
theorem apply_heardBy (p : Pipeline) (d : Dispatcher) (h : call.IsWork) :
    (p.heardBy d).apply call =
      ((p.apply call).1.heardBy (d.dispatchAll (p.apply call).2.2.events), (p.apply call).2) := by
  cases call with
  | ingest s => simp only [apply, ingest_heardBy]
  | advance w => simp only [apply, advance_heardBy]
  | load text =>
    simp only [apply, load]
    cases Snapshot.load text with
    | error failure => rfl
    | ok s =>
      simp only [Except.map, restore_heardBy]
      rfl
  | _ => exact h.elim

/-- The events of work reach all subscribers. -/
theorem dispatcher_apply (h : call.IsWork) :
    (p.apply call).1.dispatcher = p.dispatcher.dispatchAll (p.apply call).2.2.events := by
  have happly := p.apply_heardBy p.dispatcher h
  exact congrArg (fun outcome => outcome.1.dispatcher) happly

end TelemetryBands.Pipeline
