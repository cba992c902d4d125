import TelemetryBands.Proofs.Topic.Restart
import TelemetryBands.Proofs.Topic.Rewinding

/-!
# Topics that take over their own snapshots

The texts that keep a detector, a suppressor or a whole snapshot are read as what they keep. A topic
whose aggregators are closed exactly as far as its watermark therefore takes over its own text
without a change: the band and the records are those that it has, and its watermark closes nothing
that is not closed already. Every topic that never took over an older snapshot is of this kind.
-/

namespace TelemetryBands

/-- The text that keeps a detector is read as that detector. -/
theorem Detector.load?_save (d : Detector) : load? d.save = some d := by
  rw [load?, save, Json.parse?_compact d.legible_toJson, Option.bind_some, ofJson?_toJson]

/-- The text that keeps a suppressor is read as that suppressor. -/
theorem Suppressor.load?_save (s : Suppressor) : load? s.save = some s := by
  rw [load?, save, Json.parse?_compact s.legible_toJson, Option.bind_some, ofJson?_toJson]

namespace Pipeline

variable {p : Pipeline} {w : Millis}

/-- A watermark that every aggregator has reached closes nothing. -/
theorem closeThrough_of_reached (h : ∀ a ∈ p.aggregators, a.hasReached w = true) :
    p.closeThrough w = (p, []) := by
  have hclosed : (p.aggregators.map fun a => a.closeThrough w) =
      p.aggregators.map fun a => (a, []) :=
    List.map_congr_left fun a ha => Aggregator.closeThrough_of_reached (h a ha)
  have hcloses :
      (p.aggregators.map fun a => (a, ([] : List WindowClose))).flatMap Prod.snd = [] := by
    simp
  simp only [closeThrough, hclosed, hcloses, List.map_map, Function.comp_def, List.map_id',
    List.mergeSort_nil]

theorem restore_of_none {s : Snapshot} (h : s.watermark = none) :
    p.restore s = { p with detector := s.detector, suppressor := s.suppressor } := by
  unfold restore
  rw [h]

theorem restore_of_some {s : Snapshot} {w : Millis} (h : s.watermark = some w) :
    p.restore s = ({ p with detector := s.detector, suppressor := s.suppressor } :
      Pipeline).restoreWatermark w := by
  unfold restore
  rw [h]

/-- A topic whose aggregators are closed as far as its watermark is left as it is by its own
snapshot. -/
theorem restore_snapshot_self (h : ∀ level ∈ p.levels, level = p.watermark) :
    p.restore p.snapshot = p := by
  cases hwatermark : p.watermark with
  | none => exact restore_of_none hwatermark
  | some w =>
    have hreached : ∀ a ∈ p.aggregators, a.hasReached w = true := by
      intro a ha
      have hlevel := h a.closedThrough (List.mem_map_of_mem ha)
      exact Aggregator.hasReached_iff.mpr ⟨w, hlevel.trans hwatermark, Int.le_refl w.val⟩
    have hrestore : p.restore p.snapshot = p.restoreWatermark w := restore_of_some hwatermark
    rw [hrestore]
    simp only [restoreWatermark, closeThrough_of_reached hreached, List.length_nil, Nat.add_zero,
      ← hwatermark]

/-- The text of a topic that never took over an older snapshot leaves the topic as it is. -/
theorem load_save_self (name : String) (endpoint : Endpoint) (spec : TopicSpec)
    (settings : Settings) {calls : List Call}
    (h : (new name endpoint spec settings).NeverRewinds calls) :
    let p := ((new name endpoint spec settings).run calls).1
    p.load p.save = .ok p := by
  intro p
  rw [load_save, restore_snapshot_self (level_eq_of_neverRewinds name endpoint spec settings h)]

/-- A history that takes over no watermark from a snapshot takes over none from an older one. -/
theorem neverRewinds_of_taken_none {calls : List Call} (h : ∀ call ∈ calls, call.taken? = none) :
    p.NeverRewinds calls := by
  induction calls generalizing p with
  | nil => trivial
  | cons call calls ih =>
    obtain ⟨hcall, hcalls⟩ := List.forall_mem_cons.mp h
    exact ⟨not_rewinds_of_taken_none hcall, ih hcalls⟩

/-- Calls that are no loads take over nothing. -/
theorem Call.taken?_of_ne_load {call : Call} (h : ∀ text, call ≠ .load text) :
    call.taken? = none := by
  cases call with
  | load text => exact absurd rfl (h text)
  | _ => rfl

/-- Snapshots are read back. Every detector, every suppressor and every snapshot is read from its
own text as it was, and a topic that never took over a snapshot, whatever else was called on it,
takes over its own saved text and stays as it is. -/
theorem snapshots_round_trip :
    (∀ d : Detector, Detector.load? d.save = some d) ∧
      (∀ s : Suppressor, Suppressor.load? s.save = some s) ∧
      (∀ s : Snapshot, Snapshot.load s.save = .ok s) ∧
      ∀ (name : String) (endpoint : Endpoint) (spec : TopicSpec) (settings : Settings)
        (calls : List Call), (∀ text, Call.load text ∉ calls) →
          let p := ((new name endpoint spec settings).run calls).1
          p.load p.save = .ok p := by
  refine ⟨Detector.load?_save, Suppressor.load?_save, Snapshot.load_save, ?_⟩
  intro name endpoint spec settings calls hloads
  apply load_save_self
  apply neverRewinds_of_taken_none
  intro call hcall
  apply Call.taken?_of_ne_load
  rintro text rfl
  exact hloads text hcall

/-- A topic with a published state, a withheld repetition and an open window. -/
theorem snapshots_round_trip_published :
    let rule : Rule :=
      ⟨1, some 0.0, none, .lowerIncluded, 1000, 1000, .count, some (.duration 5000)⟩
    let spec : TopicSpec := ⟨"boiler", "pressure", none, none, ⟨[rule], by decide +kernel⟩, rfl⟩
    let calls : List Call :=
      [.ingest ⟨100, .integer 1⟩, .advance 1000, .ingest ⟨1100, .integer 1⟩,
        .ingest ⟨2100, .integer 1⟩, .advance 2000]
    let p := ((new "t" ⟨none, none, "boiler", "pressure"⟩ spec .standard).run calls).1
    (∀ text, Call.load text ∉ calls) ∧
      p.snapshot = ⟨⟨.state 1, 1⟩,
        ⟨OrderedMap.empty.insert 1 ⟨some 1000, 1, some 1000, 1, 1⟩⟩, some 2000⟩ ∧
      p.stats.openWindows = 1 ∧ p.load p.save = .ok p := by
  intro rule spec calls p
  have hloads : ∀ text, Call.load text ∉ calls := by
    intro text
    simp [calls]
  have hself := snapshots_round_trip.2.2.2 "t" ⟨none, none, "boiler", "pressure"⟩ spec .standard
    calls hloads
  exact ⟨hloads, by decide +kernel, by decide +kernel, hself⟩

end Pipeline

end TelemetryBands
