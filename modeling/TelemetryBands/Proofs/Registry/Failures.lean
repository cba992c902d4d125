import TelemetryBands.Proofs.Registry.Consistency

/-!
# Calls that fail leave no trace

Every operation of a registry makes its checks before its first change, and a queue from which no
event is read is put back as it was. So a call that fails leaves the registry as it was, with its
tables, its queues and all that its topics hold, and the history of a registry comes to the same
when the calls that failed are struck from it. A feed is no such call: the lines before its first
failure have been taken in.
-/

namespace TelemetryBands.Registry

variable {r : Registry} {name topic device point : String} {id : SubscriptionId} {w : Millis}
  {failure : Failure} {call : Call} {α β : Type}

theorem error_of_map {f : α → β} {answer : Except Failure α} (h : answer.map f = .error failure) :
    answer = .error failure := by
  cases answer with
  | error other => exact congrArg Except.error (Except.error.inj h)
  | ok a => cases h

/-- A topic is put into the tables only when every check on it has passed. -/
theorem createFrom_of_error {spec : TopicSpec} (h : (r.createFrom name spec).2 = .error failure) :
    (r.createFrom name spec).1 = r := by
  unfold createFrom at h ⊢
  cases hexamine : r.examine name spec with
  | error refusal => rfl
  | ok endpoint => simp only [hexamine, reduceCtorEq] at h

theorem create_of_error {text : String} (h : (r.create name text).2 = .error failure) :
    (r.create name text).1 = r := by
  unfold create at h ⊢
  cases hparse : TopicSpec.parse text with
  | error flaw => rfl
  | ok spec =>
    simp only [hparse] at h
    exact createFrom_of_error h

/-- Nothing is taken out of the tables for a topic that is not there. -/
theorem delete_of_error (h : (r.delete name).2 = .error failure) : (r.delete name).1 = r := by
  unfold delete at h ⊢
  cases htopic : r.topic name with
  | error missing => rfl
  | ok p => simp only [htopic, reduceCtorEq] at h

/-- No identifier is issued for a topic that is not there. -/
theorem attach_of_error {sink : Sink} {queued : Bool}
    (h : (r.attach topic sink queued).2 = .error failure) :
    (r.attach topic sink queued).1 = r := by
  unfold attach at h ⊢
  cases htopic : r.topic topic with
  | error missing => rfl
  | ok p => simp only [htopic, reduceCtorEq] at h

/-- A subscription that is known ends without failure, whatever became of its topic. -/
theorem unsubscribe_of_error (h : (r.unsubscribe id).2 = .error failure) :
    (r.unsubscribe id).1 = r := by
  unfold unsubscribe at h ⊢
  cases hentry : r.subscription? id with
  | none => rfl
  | some s =>
    simp only [hentry] at h
    split at h
    · cases h
    · cases h

/-- A topic that is put back in its place changes nothing. -/
theorem putTopic_self (h : r.tables.Distinct) {p : Pipeline} (hp : r.topic? name = some p) :
    r.putTopic p = r := by
  have hput := putTopic_eq (g := id) (distinct_iff.mp h) hp (mem_of_topic? hp).2
  have hid : ∀ q, Pipeline.changeIn [name] id q = q := fun q => ite_self _
  rw [id, funext hid, List.map_id'] at hput
  exact hput

/-- Nor does a queue. -/
theorem putQueue_self (h : r.tables.Consistent) {p : Pipeline} {s : Subscriber} {q : Queue}
    (hqueue : r.queueOf id = .ok (p, s, q)) : r.putQueue p s q = r := by
  obtain ⟨entry, -, -, hp, hfind, hsink⟩ := queueOf_ok hqueue
  have hq : s.sink = .queue q := by
    cases hs : s.sink with
    | queue _ => simpa [hs, Sink.queue?] using hsink
    | receiver _ => simp [hs, Sink.queue?] at hsink
  have hsame := Dispatcher.changeSink_self (h.numbered p.face (face_mem hp))
    (List.mem_of_find?_eq_some hfind)
  rw [hq] at hsame
  rw [putQueue, hsame]
  exact putTopic_self h.distinct hp

/-- A message that is not there takes nothing out of a queue. -/
theorem next_of_error (hconsistent : r.tables.Consistent)
    (h : (r.next id).2 = .error failure) : (r.next id).1 = r := by
  unfold next at h ⊢
  cases hqueue : r.queueOf id with
  | error missing => rfl
  | ok found =>
    obtain ⟨p, s, q⟩ := found
    rw [hqueue] at h
    have hrest : q.pop.1 = q := Queue.fst_pop fun e he => by cases he.symm.trans h
    show r.putQueue p s q.pop.1 = r
    rw [hrest]
    exact putQueue_self hconsistent hqueue

theorem tryNext_of_error (hconsistent : r.tables.Consistent)
    (h : (r.tryNext id).2 = .error failure) : (r.tryNext id).1 = r := by
  unfold tryNext at h ⊢
  cases hqueue : r.queueOf id with
  | error missing => rfl
  | ok found =>
    obtain ⟨p, s, q⟩ := found
    rw [hqueue] at h
    have hrest : q.tryPop.1 = q := Queue.fst_tryPop fun e he => by cases he.symm.trans h
    show r.putQueue p s q.tryPop.1 = r
    rw [hrest]
    exact putQueue_self hconsistent hqueue

/-- A sample reaches no topic unless its names are an endpoint. -/
theorem ingest_of_error {s : Sample} (h : (r.ingest device point s).2 = .error failure) :
    (r.ingest device point s).1 = r := by
  unfold ingest at h ⊢
  cases hendpoint : r.endpointOf device point with
  | error flaw => rfl
  | ok endpoint => simp only [hendpoint, reduceCtorEq] at h

theorem advance_of_error (h : (r.advance device point w).2 = .error failure) :
    (r.advance device point w).1 = r := by
  unfold advance at h ⊢
  cases hendpoint : r.endpointOf device point with
  | error flaw => rfl
  | ok endpoint => simp only [hendpoint, reduceCtorEq] at h

theorem advanceTopic_of_error (h : (r.advanceTopic name w).2 = .error failure) :
    (r.advanceTopic name w).1 = r := by
  unfold advanceTopic at h ⊢
  cases htopic : r.topic name with
  | error missing => rfl
  | ok p => simp only [htopic, reduceCtorEq] at h

/-- A text is read to its end before a topic takes anything over. -/
theorem load_of_error {text : String} (h : (r.load name text).2 = .error failure) :
    (r.load name text).1 = r := by
  unfold load at h ⊢
  cases hload : (r.topic name).bind fun p => p.load text with
  | error flaw => rfl
  | ok p => simp only [hload, reduceCtorEq] at h

/-- Whether a call takes in a feed. -/
def Call.isFeed : Call → Bool
  | .drain _ => true
  | _ => false

/-- A call that fails changes nothing. -/
theorem apply_of_error (hconsistent : r.tables.Consistent) (hcall : call.isFeed = false)
    (h : (r.apply call).2 = .error failure) : (r.apply call).1 = r := by
  cases call with
  | cleanUp => simp only [apply, reduceCtorEq] at h
  | names => simp only [apply, reduceCtorEq] at h
  | advanceAll w => simp only [apply, reduceCtorEq] at h
  | drainFaults => simp only [apply, reduceCtorEq] at h
  | drain items => cases hcall
  | key name => rfl
  | stats name => rfl
  | save name => rfl
  | create name text =>
    simp only [apply] at h ⊢
    exact create_of_error (error_of_map h)
  | createFrom name spec =>
    simp only [apply] at h ⊢
    exact createFrom_of_error (error_of_map h)
  | delete name =>
    simp only [apply] at h ⊢
    exact delete_of_error (error_of_map h)
  | subscribe topic =>
    simp only [apply] at h ⊢
    exact attach_of_error (error_of_map h)
  | subscribeSink topic sink =>
    simp only [apply] at h ⊢
    exact attach_of_error (error_of_map h)
  | unsubscribe id =>
    simp only [apply] at h ⊢
    exact unsubscribe_of_error (error_of_map h)
  | next id =>
    simp only [apply] at h ⊢
    exact next_of_error hconsistent (error_of_map h)
  | tryNext id =>
    simp only [apply] at h ⊢
    exact tryNext_of_error hconsistent (error_of_map h)
  | ingest device point s =>
    simp only [apply] at h ⊢
    exact ingest_of_error (error_of_map h)
  | advance device point w =>
    simp only [apply] at h ⊢
    exact advance_of_error (error_of_map h)
  | advanceTopic name w =>
    simp only [apply] at h ⊢
    exact advanceTopic_of_error (error_of_map h)
  | load name text =>
    simp only [apply] at h ⊢
    exact load_of_error (error_of_map h)

theorem run_cons (r : Registry) (call : Call) (calls : List Call) :
    r.run (call :: calls) =
      (((r.apply call).1.run calls).1, (r.apply call).2 :: ((r.apply call).1.run calls).2) :=
  rfl

theorem run_append (r : Registry) (before after : List Call) :
    r.run (before ++ after) =
      (((r.run before).1.run after).1, (r.run before).2 ++ ((r.run before).1.run after).2) := by
  induction before generalizing r with
  | nil => rfl
  | cons call before ih => simp only [List.cons_append, run_cons, ih]

/-- The calls of a history with their answers. -/
def history (r : Registry) (calls : List Call) : List (Call × Except Failure Answer) :=
  calls.zip (r.run calls).2

/-- Whether a call of a history may have changed something: it succeeded, or it took in a feed. -/
def counts (done : Call × Except Failure Answer) : Bool :=
  done.1.isFeed || done.2.isOk

/-- A history comes to the same without the calls that failed, and the others get the same
answers. -/
theorem run_counting (h : r.tables.Consistent) (calls : List Call) :
    r.run (((r.history calls).filter counts).map Prod.fst) =
      ((r.run calls).1, ((r.history calls).filter counts).map Prod.snd) := by
  induction calls generalizing r with
  | nil => rfl
  | cons call calls ih =>
    have hrest := ih (consistent_apply h call)
    have hhistory : r.history (call :: calls) =
        (call, (r.apply call).2) :: (r.apply call).1.history calls := rfl
    rw [hhistory, List.filter_cons]
    split
    · simp only [List.map_cons, run_cons, hrest]
    · -- The call is struck, and it changed nothing.
      rename_i hstruck
      have hparts : call.isFeed = false ∧ (r.apply call).2.isOk = false := by
        simpa [counts] using hstruck
      have hsame : (r.apply call).1 = r := by
        cases hanswer : (r.apply call).2 with
        | error failure => exact apply_of_error h hparts.1 hanswer
        | ok answer =>
          rw [hanswer] at hparts
          cases hparts.2
      rw [run_cons]
      rw [hsame] at hrest ⊢
      exact hrest

/-- Whatever was asked of a registry, a call that fails leaves it as it was, so that all that is
asked later is answered as if the call had not been made. All failed calls of a history can be
struck from it in this way, except feeds. -/
theorem failed_calls_leave_no_trace (settings : Settings) (permits : Endpoint → Bool)
    (calls : List Call) :
    let begin := new settings permits
    let r := (begin.run calls).1
    (∀ call failure, call.isFeed = false → (r.apply call).2 = .error failure →
      (r.apply call).1 = r ∧ ∀ later,
        begin.run (calls ++ call :: later) =
          ((r.run later).1, (begin.run calls).2 ++ .error failure :: (r.run later).2) ∧
        begin.run (calls ++ later) = ((r.run later).1, (begin.run calls).2 ++ (r.run later).2)) ∧
      begin.run (((begin.history calls).filter counts).map Prod.fst) =
        (r, ((begin.history calls).filter counts).map Prod.snd) := by
  intro begin r
  have hnew : begin.tables.Consistent := consistent_new settings permits
  refine ⟨fun call failure hcall hfail => ?_, run_counting hnew calls⟩
  have hsame : (r.apply call).1 = r := apply_of_error (consistent_run hnew calls) hcall hfail
  refine ⟨hsame, fun later => ⟨?_, begin.run_append calls later⟩⟩
  rw [run_append, run_cons]
  rw [hsame, hfail]

/-- A subscription that is not there cannot be ended, and trying it does not keep the subscription
that is there from its event. -/
theorem failed_calls_leave_no_trace_unknown :
    let rule : Rule := ⟨1, some 0.0, none, .lowerIncluded, 60000, 60000, .last, none⟩
    let spec : TopicSpec := ⟨"boiler", "pressure", some 0, none, ⟨[rule], by decide +kernel⟩, rfl⟩
    let calls : List Call := [.createFrom "t" spec, .subscribe "t",
      .ingest "boiler" "pressure" ⟨300, .integer 1⟩]
    let later : List Call := [.advanceAll 60000]
    let begin := new .standard fun _ => true
    let r := (begin.run calls).1
    let vain : Call := .unsubscribe .nil
    (r.apply vain).2 = .error (noSubscription .nil) ∧ (r.apply vain).1 = r ∧
      (begin.run (calls ++ vain :: later)).1 = (begin.run (calls ++ later)).1 ∧
      ((begin.run (calls ++ later)).1.topics.flatMap fun p => p.dispatcher.subscribers).map
        (fun s => s.offered.length) = [1] := by
  intro rule spec calls later begin r vain
  have hunknown : r.subscription? .nil = none := by decide +kernel
  have hfail : (r.apply vain).2 = .error (noSubscription .nil) := by
    simp only [apply, vain, unsubscribe, hunknown, Except.map]
  have htrace := failed_calls_leave_no_trace .standard (fun _ => true) calls
  obtain ⟨hsame, hlater⟩ := htrace.1 vain _ rfl hfail
  obtain ⟨hwith, hwithout⟩ := hlater later
  refine ⟨hfail, hsame, ?_, by decide +kernel⟩
  rw [hwith, hwithout]

end TelemetryBands.Registry
