import TelemetryBands.Proofs.Topic.Arrival
import TelemetryBands.Proofs.Topic.SavedText

/-!
# Watermarks that go back

A topic keeps its watermark, and each of its aggregators keeps how far it is closed. Samples and
watermarks move both on together. A snapshot is another matter: the topic takes its watermark over
whatever it is, while the aggregators ignore one that they have reached. So the aggregators are
always closed through the greatest watermark that the topic ever had, and the topic falls behind
them exactly when it takes over a snapshot that is older than itself.
-/

namespace TelemetryBands

/-- Whether a watermark is behind another one; no watermark at all is behind every other. -/
def Behind : Option Millis → Option Millis → Prop
  | _, none => False
  | none, some _ => True
  | some v, some w => v < w

instance decidableBehind : (v w : Option Millis) → Decidable (Behind v w)
  | none, none => isFalse id
  | some _, none => isFalse id
  | none, some _ => isTrue trivial
  | some v, some w => inferInstanceAs (Decidable (v < w))

theorem not_behind_self (watermark : Option Millis) : ¬ Behind watermark watermark := by
  cases watermark with
  | none => exact id
  | some w => exact Int.lt_irrefl w.val

/-- How far an aggregator is closed after a watermark. -/
def raised (w : Millis) (level : Option Millis) : Option Millis :=
  some ((level.map fun v => v.later w).getD w)

/-- A watermark that is not behind a level becomes the level. -/
theorem raised_of_not_behind {w : Millis} {level : Option Millis} (h : ¬ Behind (some w) level) :
    raised w level = some w := by
  cases level with
  | none => rfl
  | some v =>
    have hle : v ≤ w := Int.not_lt.mp h
    rw [raised, Option.map_some, Option.getD_some, Millis.later, if_pos hle]

/-- An aggregator is closed through the greatest of its watermarks. -/
theorem Aggregator.closedThrough_closeThrough (a : Aggregator) (w : Millis) :
    (a.closeThrough w).1.closedThrough = raised w a.closedThrough := by
  cases hreached : a.hasReached w with
  | false =>
    rw [closeThrough_closedThrough hreached]
    refine (raised_of_not_behind fun hbehind => ?_).symm
    cases hlevel : a.closedThrough with
    | none =>
      rw [hlevel] at hbehind
      exact hbehind
    | some v =>
      rw [hlevel] at hbehind
      have hlt : w.val < v.val := hbehind
      rw [hasReached_iff.mpr ⟨v, hlevel, Int.le_of_lt hlt⟩] at hreached
      cases hreached
  | true =>
    obtain ⟨v, hlevel, hle⟩ := hasReached_iff.mp hreached
    rw [closeThrough_of_reached hreached, hlevel, raised, Option.map_some, Option.getD_some,
      Option.some.injEq, Millis.ext_iff, Millis.later_val]
    omega

namespace Pipeline

/-- How far each aggregator is closed. -/
def levels (p : Pipeline) : List (Option Millis) :=
  p.aggregators.map Aggregator.closedThrough

/-- The watermarks that a topic has had on a history of calls. -/
def watermarks (p : Pipeline) : List Call → List Millis
  | [] => p.watermark.toList
  | call :: calls => p.watermark.toList ++ (p.apply call).1.watermarks calls

/-- The watermark that a call takes over from a snapshot. -/
def Call.taken? : Call → Option Millis
  | .load text => (Snapshot.load text).toOption.bind Snapshot.watermark
  | _ => none

/-- A call makes a topic take over an older snapshot, one whose watermark is behind its own. -/
def Rewinds (p : Pipeline) (call : Call) : Prop :=
  ∃ w, call.taken? = some w ∧ Behind (some w) p.watermark

/-- No call of a history makes a topic take over an older snapshot. -/
def NeverRewinds (p : Pipeline) : List Call → Prop
  | [] => True
  | call :: calls => ¬ p.Rewinds call ∧ (p.apply call).1.NeverRewinds calls

variable {p : Pipeline} {w : Millis}

/-- Windows that are closed through a watermark raise every level to it. -/
theorem levels_closeThrough {q : Pipeline}
    (h : q.aggregators = p.aggregators.map fun a => (a.closeThrough w).1) :
    q.levels = p.levels.map (raised w) := by
  simp only [levels, h, List.map_map]
  congr 1
  funext a
  exact a.closedThrough_closeThrough w

theorem levels_offered (p : Pipeline) (s : Sample) (counts : TopicCounts) :
    (p.offered s counts).levels = p.levels := by
  simp only [levels, offered, List.map_map]
  congr 1
  funext a
  exact a.add_closedThrough s.time s.value

/-- How a step of a topic moves its watermark and the levels of its aggregators: not at all, or both
to an instant that is not behind the watermark unless it comes from a snapshot. -/
def Moves (p q : Pipeline) (taken : Option Millis) : Prop :=
  (q.watermark = p.watermark ∧ q.levels = p.levels) ∨
    ∃ w, q.watermark = some w ∧ q.levels = p.levels.map (raised w) ∧
      (¬ Behind (some w) p.watermark ∨ taken = some w)

theorem moves_advance (p : Pipeline) (w : Millis) : p.Moves (p.advance w).1 none := by
  cases hskips : p.skips w with
  | true =>
    rw [advance_of_skips hskips]
    exact Or.inl ⟨rfl, rfl⟩
  | false =>
    rw [advance_of_new hskips]
    refine Or.inr ⟨w, rfl, levels_closeThrough rfl, Or.inl fun hbehind => ?_⟩
    cases hwatermark : p.watermark with
    | none =>
      rw [hwatermark] at hbehind
      exact hbehind
    | some v =>
      rw [hwatermark] at hbehind
      have hlt : w.val < v.val := hbehind
      have hreached : p.hasReached w = true :=
        hasReached_iff.mpr ⟨v, hwatermark, Int.le_of_lt hlt⟩
      rw [skips, hreached, Bool.or_true] at hskips
      cases hskips

theorem moves_follow (p : Pipeline) (t : Millis) : p.Moves (p.follow t).1 none :=
  p.follow_cases (motive := fun q => p.Moves q.1 none) t (Or.inl ⟨rfl, rfl⟩)
    (moves_advance { p with latestSeen := some (p.latestWith t) })

theorem moves_ingest (p : Pipeline) (s : Sample) : p.Moves (p.ingest s).1 none := by
  have hmoves := (p.offered s (p.countsWith s)).moves_follow s.time
  rw [Moves, levels_offered] at hmoves
  exact p.ingest_cases (motive := fun q => p.Moves q.1 none) s (fun _ => Or.inl ⟨rfl, rfl⟩)
    (fun _ _ => Or.inl ⟨rfl, rfl⟩) fun _ _ => hmoves

theorem moves_restore (p : Pipeline) (s : Snapshot) : p.Moves (p.restore s) s.watermark := by
  unfold restore
  cases s.watermark with
  | none => exact Or.inl ⟨rfl, rfl⟩
  | some w =>
    refine Or.inr ⟨w, rfl, levels_closeThrough ?_, Or.inr rfl⟩
    simp [restoreWatermark, closeThrough]

/-- A topic takes over the watermark of a snapshot, whatever its own was. -/
theorem watermark_restore (p : Pipeline) {s : Snapshot} (h : s.watermark = some w) :
    (p.restore s).watermark = some w := by
  unfold restore
  rw [h]
  rfl

/-- Every call moves the watermark and the levels in one of the two ways. -/
theorem moves_apply (p : Pipeline) (call : Call) : p.Moves (p.apply call).1 call.taken? := by
  cases call with
  | ingest s => exact p.moves_ingest s
  | advance w => exact p.moves_advance w
  | subscribe id sink => exact Or.inl ⟨rfl, rfl⟩
  | unsubscribe id => exact Or.inl ⟨rfl, rfl⟩
  | load text =>
    simp only [apply, load, Call.taken?]
    cases Snapshot.load text with
    | error failure => exact Or.inl ⟨rfl, rfl⟩
    | ok s => exact p.moves_restore s
  | shutDown =>
    have hlevels : p.shutDown.levels = p.levels := by
      simp only [levels, shutDown, List.map_map]
      rfl
    exact Or.inl ⟨rfl, hlevels⟩

/-- What a call takes over from a snapshot is the watermark afterwards. -/
theorem watermark_apply_of_taken {call : Call} (h : call.taken? = some w) :
    (p.apply call).1.watermark = some w := by
  cases call with
  | load text =>
    simp only [apply, load]
    cases hload : Snapshot.load text with
    | error failure =>
      rw [Call.taken?, hload] at h
      cases h
    | ok s =>
      rw [Call.taken?, hload] at h
      exact p.watermark_restore h
  | _ => cases h

/-- A call moves the watermark back exactly when it takes over an older snapshot. -/
theorem behind_apply_iff (p : Pipeline) (call : Call) :
    Behind (p.apply call).1.watermark p.watermark ↔ p.Rewinds call := by
  constructor
  · intro hbehind
    rcases p.moves_apply call with ⟨hsame, -⟩ | ⟨w, hw, -, hnew | htaken⟩
    · rw [hsame] at hbehind
      exact absurd hbehind (not_behind_self _)
    · rw [hw] at hbehind
      exact absurd hbehind hnew
    · rw [hw] at hbehind
      exact ⟨w, htaken, hbehind⟩
  · rintro ⟨w, htaken, hbehind⟩
    rw [watermark_apply_of_taken htaken]
    exact hbehind

/-- A call that takes over no snapshot with a watermark does not rewind a topic. -/
theorem not_rewinds_of_taken_none {call : Call} (h : call.taken? = none) : ¬ p.Rewinds call := by
  rintro ⟨w, hw, -⟩
  rw [h] at hw
  cases hw

/-- A snapshot that is not older does not rewind a topic. -/
theorem not_rewinds_of_taken {call : Call} (h : call.taken? = some w)
    (hahead : ¬ Behind (some w) p.watermark) : ¬ p.Rewinds call := by
  rintro ⟨v, hv, hbehind⟩
  rw [h] at hv
  obtain rfl := Option.some.inj hv
  exact hahead hbehind

/-- The watermarks of a history and one more call. -/
theorem watermarks_append (p : Pipeline) (calls : List Call) (call : Call) :
    p.watermarks (calls ++ [call]) =
      p.watermarks calls ++ ((p.run calls).1.apply call).1.watermark.toList := by
  induction calls generalizing p with
  | nil => rfl
  | cons head calls ih =>
    rw [List.cons_append, watermarks, ih, watermarks, List.append_assoc]
    rfl

/-- The watermark of a topic is one of those that it has had. -/
theorem mem_watermarks (p : Pipeline) (calls : List Call)
    (h : (p.run calls).1.watermark = some w) : w ∈ p.watermarks calls := by
  induction calls generalizing p with
  | nil =>
    rw [watermarks, Option.mem_toList]
    exact h
  | cons call calls ih => exact List.mem_append_right _ (ih _ h)

theorem neverRewinds_append {calls : List Call} {call : Call} :
    p.NeverRewinds (calls ++ [call]) ↔
      p.NeverRewinds calls ∧ ¬ (p.run calls).1.Rewinds call := by
  induction calls generalizing p with
  | nil => simp [NeverRewinds, run]
  | cons head calls ih =>
    rw [List.cons_append, NeverRewinds, NeverRewinds, ih, and_assoc]
    rfl

theorem levels_new (name : String) (endpoint : Endpoint) (spec : TopicSpec)
    (settings : Settings) : ∀ level ∈ (new name endpoint spec settings).levels, level = none := by
  intro level hlevel
  obtain ⟨a, ha, rfl⟩ := List.mem_map.mp hlevel
  obtain ⟨i, hi, rfl⟩ := List.mem_mapIdx.mp ha
  rfl

/-- The instants seen so far, with one that was among them already. -/
theorem isLatest_append_of_mem {seen : Option Millis} {times more : List Millis}
    (h : IsLatest seen times) (hmore : ∀ t ∈ more, t ∈ times) : IsLatest seen (times ++ more) where
  le := by
    intro t ht
    rcases List.mem_append.mp ht with ht | ht
    · exact h.le t ht
    · exact h.le t (hmore t ht)
  mem := fun m hm => List.mem_append_left _ (h.mem m hm)

/-- Every aggregator is closed through the greatest watermark that its topic has had. -/
theorem isLatest_of_mem_levels (name : String) (endpoint : Endpoint) (spec : TopicSpec)
    (settings : Settings) (calls : List Call) :
    let fresh := new name endpoint spec settings
    ∀ level ∈ (fresh.run calls).1.levels, IsLatest level (fresh.watermarks calls) := by
  intro fresh
  induction calls using List.reverseRecOn with
  | nil =>
    intro level hlevel
    rw [levels_new name endpoint spec settings level hlevel]
    constructor
    · intro t ht
      cases ht
    · intro m hm
      cases hm
  | append_singleton calls call ih =>
    intro level hlevel
    rw [run_append] at hlevel
    rw [watermarks_append]
    have hstep : level ∈ ((fresh.run calls).1.apply call).1.levels := hlevel
    rcases (fresh.run calls).1.moves_apply call with ⟨hsame, hlevels⟩ | ⟨w, hw, hlevels, -⟩
    · rw [hlevels] at hstep
      refine isLatest_append_of_mem (ih level hstep) fun t ht => ?_
      rw [hsame, Option.mem_toList] at ht
      exact fresh.mem_watermarks calls ht
    · rw [hlevels] at hstep
      obtain ⟨before, hbefore, rfl⟩ := List.mem_map.mp hstep
      rw [hw]
      exact (ih before hbefore).later w

/-- On a history without older snapshots, every aggregator is closed as far as the watermark. -/
theorem level_eq_of_neverRewinds (name : String) (endpoint : Endpoint) (spec : TopicSpec)
    (settings : Settings) {calls : List Call}
    (h : (new name endpoint spec settings).NeverRewinds calls) :
    let p := ((new name endpoint spec settings).run calls).1
    ∀ level ∈ p.levels, level = p.watermark := by
  induction calls using List.reverseRecOn with
  | nil => exact levels_new name endpoint spec settings
  | append_singleton calls call ih =>
    obtain ⟨hbefore, hcall⟩ := neverRewinds_append.mp h
    have hlevels := ih hbefore
    intro p level hlevel
    have hp : p = (((new name endpoint spec settings).run calls).1.apply call).1 := by
      show (Pipeline.run _ _).1 = _
      rw [run_append]
      rfl
    have hahead :
        ¬ Behind p.watermark ((new name endpoint spec settings).run calls).1.watermark := by
      rw [hp, behind_apply_iff]
      exact hcall
    rw [hp] at hlevel hahead ⊢
    rcases Pipeline.moves_apply _ call with ⟨hsame, hkept⟩ | ⟨w, hw, hraised, -⟩
    · rw [hkept] at hlevel
      rw [hsame]
      exact hlevels level hlevel
    · rw [hraised] at hlevel
      obtain ⟨before, hmem, rfl⟩ := List.mem_map.mp hlevel
      rw [hw] at hahead ⊢
      rw [hlevels before hmem]
      exact raised_of_not_behind hahead

/-- The watermark goes back only by older snapshots. After any history of calls on a new topic, a
call moves the watermark back exactly when it takes over a snapshot with an earlier watermark. The
aggregators do not follow it: each is closed through the greatest watermark that the topic ever had.
So without such a call the aggregators are closed exactly as far as the watermark. -/
theorem watermark_goes_back_only_by_older_snapshots (name : String) (endpoint : Endpoint)
    (spec : TopicSpec) (settings : Settings) (calls : List Call) :
    let fresh := new name endpoint spec settings
    let p := (fresh.run calls).1
    (∀ call, Behind (p.apply call).1.watermark p.watermark ↔ p.Rewinds call) ∧
      (∀ a ∈ p.aggregators, IsLatest a.closedThrough (fresh.watermarks calls)) ∧
      (fresh.NeverRewinds calls → ∀ a ∈ p.aggregators, a.closedThrough = p.watermark) := by
  intro fresh p
  refine ⟨p.behind_apply_iff, ?_, ?_⟩
  · intro a ha
    exact isLatest_of_mem_levels name endpoint spec settings calls _ (List.mem_map_of_mem ha)
  · intro hnever a ha
    exact level_eq_of_neverRewinds name endpoint spec settings hnever _ (List.mem_map_of_mem ha)

/-- A topic that takes over a snapshot with a later watermark than its own, and then the same
snapshot again. -/
theorem watermark_goes_back_only_by_older_snapshots_restored :
    let rule : Rule := ⟨1, some 0.0, none, .both, 1000, 1000, .count, none⟩
    let spec : TopicSpec := ⟨"boiler", "pressure", none, none, ⟨[rule], by decide⟩, rfl⟩
    let saved : Snapshot := ⟨.initial, .initial, some 5000⟩
    let calls : List Call := [.advance 1000, .load saved.save, .load saved.save]
    (new "t" ⟨none, none, "boiler", "pressure"⟩ spec .standard).NeverRewinds calls ∧
      ∀ a ∈ ((new "t" ⟨none, none, "boiler", "pressure"⟩ spec .standard).run calls).1.aggregators,
        a.closedThrough =
          ((new "t" ⟨none, none, "boiler", "pressure"⟩ spec .standard).run calls).1.watermark := by
  intro rule spec saved calls
  have htaken : (Call.load saved.save).taken? = some 5000 := by
    rw [Call.taken?, Snapshot.load_save]
    rfl
  have hnever :
      (new "t" ⟨none, none, "boiler", "pressure"⟩ spec .standard).NeverRewinds calls := by
    refine ⟨not_rewinds_of_taken_none rfl, not_rewinds_of_taken htaken ?_,
      not_rewinds_of_taken htaken ?_, trivial⟩
    · decide +kernel
    · rw [watermark_apply_of_taken htaken]
      exact not_behind_self _
  have h := watermark_goes_back_only_by_older_snapshots "t"
    ⟨none, none, "boiler", "pressure"⟩ spec .standard calls
  exact ⟨hnever, h.2.2 hnever⟩

/-- A topic with watermark 5000 takes over a snapshot with watermark 1000 and goes back to it, while
its aggregator stays closed through 5000. -/
theorem older_snapshot_moves_watermark_back :
    let rule : Rule := ⟨1, some 0.0, none, .both, 1000, 1000, .count, none⟩
    let spec : TopicSpec := ⟨"boiler", "pressure", none, none, ⟨[rule], by decide⟩, rfl⟩
    let p := ((new "t" ⟨none, none, "boiler", "pressure"⟩ spec .standard).run
      [.advance 1000, .advance 5000]).1
    let older : Snapshot := ⟨.initial, .initial, some 1000⟩
    let q := (p.apply (.load older.save)).1
    p.watermark = some 5000 ∧ q.watermark = some 1000 ∧
      q.aggregators.map Aggregator.closedThrough = [some 5000] := by
  intro rule spec p older q
  have hq : q = p.restore older := by
    show (p.apply (.load older.save)).1 = _
    rw [apply, load, Snapshot.load_save]
    rfl
  rw [hq]
  exact ⟨by decide +kernel, by decide +kernel, by decide +kernel⟩

end Pipeline

end TelemetryBands
