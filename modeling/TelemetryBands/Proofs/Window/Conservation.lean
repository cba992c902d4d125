import TelemetryBands.Proofs.Collections.Totals
import TelemetryBands.Proofs.Window.Batch
import TelemetryBands.Proofs.Window.Provenance

/-!
# Conservation of samples

A sample is offered to every window that holds its time. What becomes of it there depends on the
window alone, as long as there is room: it is late if the watermark has reached the end, joins a
window that is open, and opens one that is not. Once no more windows may be open, those that it
would open turn it away, and nothing else changes. So every pair of a sample and a window is
accounted for, whatever the order of the calls: the pairs that were accepted are those in the
windows that were closed and in those that are still open.
-/

namespace TelemetryBands.Aggregator

variable {a : Aggregator} {sample : WindowSample} {span : Span} {spans : List Span}
  {given : List WindowSample} {t w : Millis} {value : SampleValue}

/-- A sample goes into a window that is open. -/
def joins (a : Aggregator) (span : Span) : Bool :=
  !a.hasReached span.stop && a.openWindows.contains span.start

/-- A sample needs a window that is not open yet. -/
def opens (a : Aggregator) (span : Span) : Bool :=
  !a.hasReached span.stop && !a.openWindows.contains span.start

/-- How many more windows may be open. -/
def room (a : Aggregator) : Nat :=
  a.maxOpen - a.openWindows.size

theorem joins_iff : a.joins span = true ↔
    a.hasReached span.stop = false ∧ a.openWindows.contains span.start = true := by
  simp [joins]

theorem opens_iff : a.opens span = true ↔
    a.hasReached span.stop = false ∧ a.openWindows.contains span.start = false := by
  simp [opens]

/-- A window that holds a sample has closed, is joined or has to be opened. -/
theorem late_or_joins_or_opens (a : Aggregator) (span : Span) :
    (a.hasReached span.stop = true ∧ a.joins span = false ∧ a.opens span = false) ∨
      (a.joins span = true ∧ a.opens span = false) ∨
      (a.joins span = false ∧ a.opens span = true) := by
  cases hreached : a.hasReached span.stop <;>
    cases hcontains : a.openWindows.contains span.start <;> simp [joins, opens, hreached, hcontains]

theorem offer_of_late (h : a.hasReached span.stop = true) (admission : Admission) :
    offer sample (a, admission) span = (a, { admission with late := admission.late + 1 }) := by
  simp [offer, judge, h]

theorem offer_of_joins (h : a.joins span = true) (admission : Admission) :
    offer sample (a, admission) span =
      (a.place sample span, { admission with accepted := admission.accepted + 1 }) := by
  obtain ⟨hreached, hcontains⟩ := joins_iff.mp h
  simp [offer, judge, hreached, hcontains]

theorem offer_of_room (h : a.opens span = true) (hroom : 0 < a.room) (admission : Admission) :
    offer sample (a, admission) span =
      (a.place sample span, { admission with accepted := admission.accepted + 1 }) := by
  obtain ⟨hreached, hcontains⟩ := opens_iff.mp h
  have hfew : ¬ a.maxOpen ≤ a.openWindows.size := by
    unfold room at hroom
    omega
  simp [offer, judge, hreached, hcontains, hfew]

theorem offer_of_full (h : a.opens span = true) (hfull : a.room = 0) (admission : Admission) :
    offer sample (a, admission) span =
      (a, { admission with overflowed := admission.overflowed + 1 }) := by
  obtain ⟨hreached, hcontains⟩ := opens_iff.mp h
  have hmany : a.maxOpen ≤ a.openWindows.size := by
    unfold room at hfull
    omega
  simp [offer, judge, hreached, hcontains, hmany]

theorem contains_place (a : Aggregator) (sample : WindowSample) (span : Span) (s : Millis) :
    (a.place sample span).openWindows.contains s =
      (decide (span.start = s) || a.openWindows.contains s) := by
  rw [OrderedMap.contains, find?_place]
  by_cases hs : span.start = s <;> simp [hs, OrderedMap.contains]

theorem size_place (a : Aggregator) (sample : WindowSample) (span : Span) :
    (a.place sample span).openWindows.size =
      a.openWindows.size + if a.openWindows.contains span.start then 0 else 1 :=
  OrderedMap.size_insert _ _ _

/-- A sample in one window changes nothing for the windows that start elsewhere. -/
theorem joins_place {other : Span} (hne : span.start ≠ other.start) :
    (a.place sample span).joins other = a.joins other := by
  rw [joins, contains_place, decide_eq_false hne, Bool.false_or]
  rfl

theorem opens_place {other : Span} (hne : span.start ≠ other.start) :
    (a.place sample span).opens other = a.opens other := by
  rw [opens, contains_place, decide_eq_false hne, Bool.false_or]
  rfl

/-- What becomes of a sample in windows with different starts: it joins those that are open and
opens others as long as there is room. -/
theorem foldl_offer_counts (sample : WindowSample) (state : Aggregator × Admission)
    (hdistinct : spans.Pairwise fun a b => a.start ≠ b.start) :
    let fresh := spans.countP state.1.opens
    let next := spans.foldl (offer sample) state
    next.2.accepted = state.2.accepted + spans.countP state.1.joins + min fresh state.1.room ∧
      next.2.overflowed = state.2.overflowed + (fresh - state.1.room) ∧
      next.1.openWindows.size = state.1.openWindows.size + min fresh state.1.room := by
  induction spans generalizing state with
  | nil => simp
  | cons span spans ih =>
    obtain ⟨a, admission⟩ := state
    obtain ⟨hfirst, hrest⟩ := List.pairwise_cons.mp hdistinct
    -- The other windows start elsewhere, so they are joined and opened as before.
    have hjoins : spans.countP (a.place sample span).joins = spans.countP a.joins :=
      List.countP_congr fun other hmem => by rw [joins_place (hfirst other hmem)]
    have hopens : spans.countP (a.place sample span).opens = spans.countP a.opens :=
      List.countP_congr fun other hmem => by rw [opens_place (hfirst other hmem)]
    have hsize := a.size_place sample span
    have hmaxOpen : (a.place sample span).maxOpen = a.maxOpen := rfl
    simp only [List.foldl_cons, List.countP_cons]
    rcases a.late_or_joins_or_opens span with ⟨hlate, hj, ho⟩ | ⟨hj, ho⟩ | ⟨hj, ho⟩
    · rw [offer_of_late hlate]
      simpa [hj, ho] using ih (a, _) hrest
    · rw [offer_of_joins hj]
      have hnext := ih (a.place sample span, { admission with accepted := admission.accepted + 1 })
        hrest
      rw [(joins_iff.mp hj).2, if_pos rfl] at hsize
      simp only [hjoins, hopens, room, hsize, hmaxOpen, hj, ho, if_true, Bool.false_eq_true,
        if_false] at hnext ⊢
      omega
    · by_cases hroom : 0 < a.room
      · rw [offer_of_room ho hroom]
        have hnext := ih
          (a.place sample span, { admission with accepted := admission.accepted + 1 }) hrest
        rw [(opens_iff.mp ho).2, if_neg Bool.false_ne_true] at hsize
        simp only [hjoins, hopens, room, hsize, hmaxOpen, hj, ho, if_true, Bool.false_eq_true,
          if_false] at hnext hroom ⊢
        omega
      · have hfull : a.room = 0 := Nat.eq_zero_of_not_pos hroom
        rw [offer_of_full ho hfull]
        have hnext := ih (a, { admission with overflowed := admission.overflowed + 1 }) hrest
        simp only [hfull, hj, ho, if_true, Bool.false_eq_true, if_false] at hnext ⊢
        omega

/-- A window with its own start that is open and joined takes the sample behind the others. -/
theorem find?_foldl_offer_of_joins (sample : WindowSample) (state : Aggregator × Admission)
    (hdistinct : spans.Pairwise fun a b => a.start ≠ b.start) (hmem : span ∈ spans)
    (hjoins : state.1.joins span = true) :
    (spans.foldl (offer sample) state).1.openWindows.find? span.start =
      (state.1.openWindows.find? span.start).map fun window =>
        { window with samples := window.samples ++ [sample] } := by
  induction spans generalizing state with
  | nil => cases hmem
  | cons head spans ih =>
    obtain ⟨a, admission⟩ := state
    obtain ⟨hfirst, hrest⟩ := List.pairwise_cons.mp hdistinct
    rw [List.foldl_cons]
    rcases List.mem_cons.mp hmem with rfl | hmem
    · -- The later windows start elsewhere.
      rw [offer_of_joins hjoins, find?_foldl_offer_of_late _ fun other hother hstart =>
        absurd hstart.symm (hfirst other hother), find?_place, if_pos rfl]
      obtain ⟨window, hwindow⟩ :=
        OrderedMap.contains_eq_true_iff.mp (joins_iff.mp hjoins).2
      simp only [hwindow, Option.getD_some, Option.map_some]
    · have hne := hfirst span hmem
      rcases offer_cases a sample admission head with
        ⟨-, hoffer⟩ | ⟨-, -, -, hoffer⟩ | ⟨-, hoffer⟩
      · rw [hoffer]
        exact ih _ hrest hmem hjoins
      · rw [hoffer]
        exact ih _ hrest hmem hjoins
      · have hjoins' : (a.place sample head).joins span = true := (joins_place hne).trans hjoins
        rw [hoffer, ih _ hrest hmem hjoins', find?_place, if_neg hne]

/-- What becomes of a sample: it joins the windows that are open and opens others as long as there
is room. -/
theorem add_counts (hg : a.grid.Proper) (t : Millis) (value : SampleValue) :
    let windows := a.grid.windowsContaining t
    let fresh := windows.countP a.opens
    (a.add t value).2.accepted = windows.countP a.joins + min fresh a.room ∧
      (a.add t value).2.overflowed = fresh - a.room ∧
      (a.add t value).1.openWindows.size = a.openWindows.size + min fresh a.room := by
  have hcounts := foldl_offer_counts ⟨t, a.nextArrival, value⟩
    ({ a with nextArrival := a.nextArrival + 1 }, ⟨0, 0, 0⟩) (WindowGrid.starts_differ hg t)
  simp only [Nat.zero_add] at hcounts
  exact hcounts

/-- Every window of a sample is counted once. -/
theorem add_total (a : Aggregator) (t : Millis) (value : SampleValue) :
    (a.add t value).2.accepted + (a.add t value).2.late + (a.add t value).2.overflowed =
      (a.grid.windowsContaining t).length := by
  have htotal := (foldl_offer_admission ⟨t, a.nextArrival, value⟩ (a.grid.windowsContaining t)
    ({ a with nextArrival := a.nextArrival + 1 }, ⟨0, 0, 0⟩)).2.2
  simp only [Nat.zero_add] at htotal
  exact htotal

/-- A window that is joined takes the sample behind the others. -/
theorem find?_add_of_joins (hg : a.grid.Proper) (hmem : span ∈ a.grid.windowsContaining t)
    (hjoins : a.joins span = true) :
    (a.add t value).1.openWindows.find? span.start =
      (a.openWindows.find? span.start).map fun window =>
        { window with samples := window.samples ++ [⟨t, a.nextArrival, value⟩] } :=
  find?_foldl_offer_of_joins _ ({ a with nextArrival := a.nextArrival + 1 }, ⟨0, 0, 0⟩)
    (WindowGrid.starts_differ hg t) hmem hjoins

/-- A sample joins every open window that holds it, but for one: where the end was cut off at the
last instant of the clock and the watermark stands there, the window is open and the sample is
late. -/
theorem Regular.joins_or_cut_off (h : a.Regular) (hholds : a.grid.Holds span)
    (hopen : a.openWindows.contains span.start = true) :
    a.joins span = true ∨ (span.stop = Millis.last ∧ a.closedThrough = some Millis.last) := by
  cases hreached : a.hasReached span.stop with
  | false => exact .inl (joins_iff.mpr ⟨hreached, hopen⟩)
  | true =>
    obtain ⟨w, hw, hstop⟩ := hasReached_iff.mp hreached
    obtain ⟨window, hfind⟩ := OrderedMap.contains_eq_true_iff.mp hopen
    have hspan : window.span = span :=
      (h.window hfind).2.eq_of_start hholds (h.window hfind).1
    have hpending : ¬ a.grid.endOf span ≤ w.val := fun hend =>
      h.pending hfind ⟨w, hw, hspan ▸ hend⟩
    have hcut := hholds.stop_val h.proper
    have hlast := w.le_last
    have hw' : w = Millis.last := Millis.ext (by rw [Millis.last_val]; omega)
    exact .inr ⟨Millis.ext (by rw [Millis.last_val]; omega), hw' ▸ hw⟩

/-- No more windows are open than may be. -/
def InRoom (a : Aggregator) : Prop :=
  a.openWindows.size ≤ a.maxOpen

theorem InRoom.add (h : a.InRoom) (hg : a.grid.Proper) (t : Millis) (value : SampleValue) :
    (a.add t value).1.InRoom := by
  have hsize := (add_counts hg t value).2.2
  unfold InRoom room at *
  rw [add_maxOpen, hsize]
  omega

theorem InRoom.closeThrough (h : a.InRoom) (w : Millis) : (a.closeThrough w).1.InRoom := by
  cases hreached : a.hasReached w with
  | true =>
    rw [closeThrough_of_reached hreached]
    exact h
  | false =>
    rw [closeThrough_of_new hreached]
    exact (List.length_filter_le _ _).trans h

/-- A window holds samples of a list, at least one, in their order and at times within it. -/
structure FilledFrom (given : List WindowSample) (window : OpenWindow) : Prop where
  nonempty : window.samples ≠ []
  within : ∀ x ∈ window.samples, window.span.contains x.time = true
  drawn : window.samples.Sublist given

/-- Every open window is filled from a list. -/
def IsFilledFrom (a : Aggregator) (given : List WindowSample) : Prop :=
  ∀ s window, a.openWindows.find? s = some window → FilledFrom given window

/-- With a sample the windows are filled from the samples before it and from that one. -/
theorem IsFilledFrom.add (h : a.IsFilledFrom given) (hregular : a.Regular) :
    (a.add t value).1.IsFilledFrom (given ++ [⟨t, a.nextArrival, value⟩]) := by
  have hcontains : ∀ span ∈ a.grid.windowsContaining t, span.contains t = true :=
    fun span hmem => ((WindowGrid.mem_windowsContaining hregular.proper).mp hmem).2.1
  refine hregular.forall_windows_add h ?_ ?_ ?_
  · exact fun window hwindow => ⟨hwindow.nonempty, hwindow.within,
      hwindow.drawn.trans (List.sublist_append_left _ _)⟩
  · exact fun span hmem => ⟨List.cons_ne_nil _ _,
      List.forall_mem_singleton.mpr (hcontains span hmem), List.sublist_append_right _ _⟩
  · exact fun window hwindow hmem => ⟨by simp, List.forall_mem_append.mpr
      ⟨hwindow.within, List.forall_mem_singleton.mpr (hcontains _ hmem)⟩,
      hwindow.drawn.append (List.Sublist.refl _)⟩

/-- The number of samples in open windows, each counted once for every window. -/
def held (a : Aggregator) : Nat :=
  totalOf (fun window => window.samples.length) a.openWindows.values

theorem held_place (a : Aggregator) (sample : WindowSample) (span : Span) :
    (a.place sample span).held = a.held + 1 := by
  let window := (a.openWindows.find? span.start).getD ⟨span, []⟩
  have htotal := OrderedMap.totalOf_insert (fun window : OpenWindow => window.samples.length)
    a.openWindows span.start { window with samples := window.samples ++ [sample] }
  have hheld : (a.place sample span).held =
      totalOf (fun window => window.samples.length) (a.openWindows.insert span.start
        { window with samples := window.samples ++ [sample] }).values := rfl
  have hold : ((a.openWindows.find? span.start).map fun window => window.samples.length).getD 0 =
      window.samples.length := by
    unfold window
    cases a.openWindows.find? span.start <;> rfl
  rw [hheld, held]
  rw [hold, List.length_append, List.length_singleton] at htotal
  omega

/-- What windows accept they hold. -/
theorem held_foldl_offer (sample : WindowSample) (spans : List Span)
    (state : Aggregator × Admission) :
    (spans.foldl (offer sample) state).1.held + state.2.accepted =
      state.1.held + (spans.foldl (offer sample) state).2.accepted := by
  induction spans generalizing state with
  | nil => rfl
  | cons span spans ih =>
    obtain ⟨a, admission⟩ := state
    have hnext := ih (offer sample (a, admission) span)
    rw [List.foldl_cons]
    rcases offer_cases a sample admission span with
      ⟨-, hoffer⟩ | ⟨-, -, -, hoffer⟩ | ⟨-, hoffer⟩
    · rw [hoffer] at hnext ⊢
      exact hnext
    · rw [hoffer] at hnext ⊢
      exact hnext
    · rw [hoffer] at hnext ⊢
      simp only [held_place] at hnext ⊢
      omega

theorem held_add (a : Aggregator) (t : Millis) (value : SampleValue) :
    (a.add t value).1.held = a.held + (a.add t value).2.accepted :=
  held_foldl_offer ⟨t, a.nextArrival, value⟩ (a.grid.windowsContaining t)
    ({ a with nextArrival := a.nextArrival + 1 }, ⟨0, 0, 0⟩)

/-- What a watermark closes and what it leaves open hold all samples. -/
theorem held_closeThrough (a : Aggregator) (w : Millis) :
    (a.closeThrough w).1.held + totalOf WindowClose.sampleCount (a.closeThrough w).2 = a.held := by
  cases hreached : a.hasReached w with
  | true =>
    rw [closeThrough_of_reached hreached]
    rfl
  | false =>
    have hsplit := OrderedMap.totalOf_filterKeys_add
      (fun window : OpenWindow => window.samples.length) a.openWindows
      fun s => decide (a.firstOpenStart w ≤ s)
    have hclosing : (fun s => !decide (a.firstOpenStart w ≤ s)) =
        fun s => decide (s < a.firstOpenStart w) := by
      funext s
      rw [← decide_not]
      simp only [Millis.le_def, Millis.lt_def, Int.not_le]
    rw [hclosing] at hsplit
    rw [closeThrough_of_new hreached]
    simp only [totalOf_map]
    exact hsplit

/-- The number of windows that accepted the sample of a call. -/
def Answer.accepted : Answer → Nat
  | .admission a => a.accepted
  | .closes _ | .cleared => 0

/-- What holds of an aggregator after a history that began with a new one. -/
structure Conserves (b : Aggregator) (grid : WindowGrid) (maxOpen : Nat) (calls : List Call)
    (answers : List Answer) : Prop where
  grid_eq : b.grid = grid
  maxOpen_eq : b.maxOpen = maxOpen
  nextArrival_eq : b.nextArrival = sampleCount calls
  regular : b.Regular
  inRoom : b.InRoom
  filled : b.IsFilledFrom ((offered none 0 calls).map Prod.fst)
  held_eq : totalOf Answer.accepted answers =
    totalOf WindowClose.sampleCount (emissions answers) + b.held
  closed_eq : b.counts.windowsClosed = (emissions answers).length

namespace Conserves

variable {b : Aggregator} {grid : WindowGrid} {maxOpen : Nat} {calls : List Call}
  {answers : List Answer}

theorem initial (index : Nat) {rule : Rule} (origin : Millis) (maxOpen : Nat)
    (hsize : 0 < rule.windowSize) (hoffset : 0 < rule.windowOffset) :
    (new index rule origin maxOpen).Conserves ⟨origin, rule.windowSize, rule.windowOffset⟩
      (max maxOpen 1) [] [] where
  grid_eq := rfl
  maxOpen_eq := rfl
  nextArrival_eq := rfl
  regular := ⟨⟨hsize, hoffset⟩, by simp [new], by simp [new]⟩
  inRoom := Nat.zero_le _
  filled := by simp [IsFilledFrom, new]
  held_eq := rfl
  closed_eq := rfl

/-- One more sample. -/
theorem add (h : b.Conserves grid maxOpen calls answers) (t : Millis) (value : SampleValue) :
    (b.add t value).1.Conserves grid maxOpen (calls ++ [.add t value])
      (answers ++ [.admission (b.add t value).2]) where
  grid_eq := by rw [add_grid, h.grid_eq]
  maxOpen_eq := by rw [add_maxOpen, h.maxOpen_eq]
  nextArrival_eq := by
    rw [add_nextArrival, h.nextArrival_eq, sampleCount_append]
    rfl
  regular := h.regular.add t value
  inRoom := h.inRoom.add h.regular.proper t value
  filled := by
    rw [offered_append, List.map_append, Nat.zero_add, ← h.nextArrival_eq]
    exact h.filled.add h.regular
  held_eq := by
    have hheld := h.held_eq
    rw [held_add, emissions, List.flatMap_append, totalOf_append, totalOf_append]
    simp only [emissions, List.flatMap_cons, List.flatMap_nil, Answer.emissions, totalOf_cons,
      totalOf_nil, Answer.accepted, List.append_nil] at hheld ⊢
    omega
  closed_eq := by
    rw [windowsClosed_add, h.closed_eq, emissions, emissions, List.flatMap_append]
    simp [Answer.emissions]

/-- One more watermark. -/
theorem close (h : b.Conserves grid maxOpen calls answers) (w : Millis) :
    (b.closeThrough w).1.Conserves grid maxOpen (calls ++ [.close w])
      (answers ++ [.closes (b.closeThrough w).2]) where
  grid_eq := by rw [closeThrough_grid, h.grid_eq]
  maxOpen_eq := by rw [closeThrough_maxOpen, h.maxOpen_eq]
  nextArrival_eq := by
    rw [closeThrough_nextArrival, h.nextArrival_eq, sampleCount_append]
    rfl
  regular := h.regular.closeThrough w
  inRoom := h.inRoom.closeThrough w
  filled := by
    rw [offered_append, List.map_append]
    simp only [offered, List.map_nil, List.append_nil]
    exact fun s window hfind => h.filled s window (find?_of_closeThrough hfind)
  held_eq := by
    have hheld := h.held_eq
    have hclose := b.held_closeThrough w
    rw [emissions, List.flatMap_append, totalOf_append, totalOf_append]
    simp only [emissions, List.flatMap_cons, List.flatMap_nil, Answer.emissions, totalOf_cons,
      totalOf_nil, Answer.accepted, List.append_nil] at hheld ⊢
    omega
  closed_eq := by
    rw [windowsClosed_closeThrough, h.closed_eq, emissions, emissions, List.flatMap_append,
      List.length_append]
    simp [Answer.emissions]

end Conserves

/-- Every history without `clear` of a new aggregator conserves the samples. -/
theorem run_conserves (index : Nat) {rule : Rule} (origin : Millis) (maxOpen : Nat)
    (hsize : 0 < rule.windowSize) (hoffset : 0 < rule.windowOffset) {calls : List Call}
    (hclear : Call.clear ∉ calls) :
    ((new index rule origin maxOpen).run calls).1.Conserves
      ⟨origin, rule.windowSize, rule.windowOffset⟩ (max maxOpen 1) calls
      ((new index rule origin maxOpen).run calls).2 := by
  induction calls using List.reverseRecOn with
  | nil => exact Conserves.initial index origin maxOpen hsize hoffset
  | append_singleton calls call ih =>
    have hbefore := ih fun hmem => hclear (List.mem_append_left _ hmem)
    rw [run_append, run_singleton]
    cases call with
    | add t value => exact hbefore.add t value
    | close w => exact hbefore.close w
    | clear => exact absurd (List.mem_append_right _ List.mem_cons_self) hclear

/-- No pair of a sample and a window is lost or doubled, on every history of a new aggregator
without `clear`, for windows of positive length at positive distances and however few of them may be
open. Every window of a sample accepts it, is closed already or finds no room: those that are open
accept it, and of the others that are not closed as many as there is room for. So a full aggregator
puts a sample behind the others of every window that is open already, but for a window whose end was
cut off at the last instant of the clock, once the watermark stands there. There are never more
windows open than may be, or one. Each stands under its own start on the grid and holds samples of
the history, at least one, in the order of their arrival and at times within it. The windows that
accepted samples are counted by the samples that were closed and those that are still open, and the
closes are all counted. -/
theorem samples_are_conserved (index maxOpen : Nat) {rule : Rule} (origin : Millis)
    {calls : List Call} (hsize : 0 < rule.windowSize) (hoffset : 0 < rule.windowOffset)
    (hclear : Call.clear ∉ calls) :
    let grid : WindowGrid := ⟨origin, rule.windowSize, rule.windowOffset⟩
    let start := new index rule origin maxOpen
    let a := (start.run calls).1
    let answers := (start.run calls).2
    (∀ before t value after, calls = before ++ .add t value :: after →
      let b := (start.run before).1
      let windows := grid.windowsContaining t
      let fresh := windows.countP b.opens
      ∃ admission, answers[before.length]? = some (.admission admission) ∧
        admission.accepted + admission.late + admission.overflowed = windows.length ∧
        admission.accepted = windows.countP b.joins + min fresh b.room ∧
        admission.overflowed = fresh - b.room ∧
        ∀ span ∈ windows, ∀ window, b.openWindows.find? span.start = some window →
          (b.add t value).1.openWindows.find? span.start = some
            { window with samples := window.samples ++ [⟨t, sampleCount before, value⟩] } ∨
          (span.stop = Millis.last ∧ b.closedThrough = some Millis.last)) ∧
    a.openWindows.size ≤ max 1 maxOpen ∧
    (∀ s window, a.openWindows.find? s = some window →
      window.span.start = s ∧ grid.Holds window.span ∧ window.samples ≠ [] ∧
        (∀ x ∈ window.samples, window.span.contains x.time = true) ∧
        window.samples.Sublist ((offered none 0 calls).map Prod.fst)) ∧
    totalOf Answer.accepted answers = totalOf WindowClose.sampleCount (emissions answers) +
      totalOf (fun window => window.samples.length) a.openWindows.values ∧
    a.counts.windowsClosed = (emissions answers).length := by
  intro grid start a answers
  have h := run_conserves index origin maxOpen hsize hoffset hclear
  refine ⟨?_, ?_, ?_, h.held_eq, h.closed_eq⟩
  · rintro before t value after rfl
    have hbefore := run_conserves index origin maxOpen hsize hoffset fun hmem =>
      hclear (List.mem_append_left _ hmem)
    intro b windows fresh
    have hgrid : b.grid = grid := hbefore.grid_eq
    have hproper : b.grid.Proper := hbefore.regular.proper
    obtain ⟨haccepted, hoverflowed, -⟩ := add_counts hproper t value
    have htotal := b.add_total t value
    rw [hgrid] at haccepted hoverflowed htotal
    refine ⟨(b.add t value).2, ?_, htotal, haccepted, hoverflowed, ?_⟩
    · have hlength : (start.run before).2.length = before.length := length_run _ _
      have hanswers : answers = (start.run before).2 ++ (b.run (.add t value :: after)).2 :=
        congrArg Prod.snd (run_append start before (.add t value :: after))
      rw [hanswers, ← hlength, List.getElem?_append_right (Nat.le_refl _), Nat.sub_self]
      rfl
    · intro span hmem window hfind
      have hmem : span ∈ b.grid.windowsContaining t := by rw [hgrid]; exact hmem
      have hholds := ((WindowGrid.mem_windowsContaining hproper).mp hmem).1
      have hopen := OrderedMap.contains_eq_true_iff.mpr ⟨window, hfind⟩
      refine (hbefore.regular.joins_or_cut_off hholds hopen).imp (fun hjoins => ?_) id
      rw [find?_add_of_joins hproper hmem hjoins, hfind, hbefore.nextArrival_eq]
      rfl
  · have hroom := h.inRoom
    rw [InRoom, h.maxOpen_eq, Nat.max_comm] at hroom
    exact hroom
  · intro s window hfind
    obtain ⟨hstart, hholds⟩ := h.regular.window hfind
    obtain ⟨hnonempty, hwithin, hdrawn⟩ := h.filled s window hfind
    rw [h.grid_eq] at hholds
    exact ⟨hstart, hholds, hnonempty, hwithin, hdrawn⟩

/-- Of four samples the third one finds no room, and the fourth one goes into the first window. -/
theorem samples_are_conserved_full :
    let rule : Rule := ⟨1, some 0.0, none, .both, 3000, 3000, .count, none⟩
    let calls : List Call := [.add 0 (.number 1.0), .add 3000 (.number 1.0),
      .add 6000 (.number 1.0), .add 10 (.number 1.0), .close 3000]
    let a := ((new 0 rule 0 2).run calls).1
    let answers := ((new 0 rule 0 2).run calls).2
    0 < rule.windowSize ∧ 0 < rule.windowOffset ∧ Call.clear ∉ calls ∧
      (∃ admission, answers[2]? = some (.admission admission) ∧ admission.overflowed = 1) ∧
      (∃ admission, answers[3]? = some (.admission admission) ∧ admission.accepted = 1) ∧
      2 + totalOf (fun window => window.samples.length) a.openWindows.values = 3 := by
  intro rule calls a answers
  have hsize : 0 < rule.windowSize := by decide
  have hoffset : 0 < rule.windowOffset := by decide
  have hclear : Call.clear ∉ calls := by decide
  obtain ⟨hadds, -, -, htotal, -⟩ :=
    samples_are_conserved 0 2 0 hsize hoffset hclear
  obtain ⟨third, hthird, -, -, hoverflowed, -⟩ := hadds [.add 0 (.number 1.0),
    .add 3000 (.number 1.0)] 6000 (.number 1.0) [.add 10 (.number 1.0), .close 3000] rfl
  obtain ⟨fourth, hfourth, -, haccepted, -⟩ := hadds [.add 0 (.number 1.0),
    .add 3000 (.number 1.0), .add 6000 (.number 1.0)] 10 (.number 1.0) [.close 3000] rfl
  refine ⟨hsize, hoffset, hclear, ⟨third, hthird, hoverflowed.trans ?_⟩,
    ⟨fourth, hfourth, haccepted.trans ?_⟩, ?_⟩
  · decide +kernel
  · decide +kernel
  · have haccepts : totalOf Answer.accepted answers = 3 := by decide +kernel
    have hcloses : totalOf WindowClose.sampleCount (emissions answers) = 2 := by decide +kernel
    rw [← hcloses, ← haccepts]
    exact htotal.symm

/-- One window may be open and one is, with its end cut off at the last instant of the clock. The
watermark stands there, and a sample in the window is turned away. -/
theorem open_window_turns_sample_away :
    let rule : Rule := ⟨1, some 0.0, none, .both, 1000, 1000, .count, none⟩
    let calls : List Call := [.add 9223372036854775500 (.number 1.0), .close Millis.last]
    let a := ((new 0 rule 0 1).run calls).1
    let t : Millis := 9223372036854775600
    let span : Span := ⟨9223372036854775000, Millis.last⟩
    0 < rule.windowSize ∧ 0 < rule.windowOffset ∧ Call.clear ∉ calls ∧ a.maxOpen = 1 ∧
      a.openSpans = [span] ∧ a.grid.windowsContaining t = [span] ∧
      (a.add t (.number 2.0)).2 = ⟨0, 1, 0⟩ ∧
      (a.add t (.number 2.0)).1.openWindows = a.openWindows := by
  decide +kernel

end TelemetryBands.Aggregator
