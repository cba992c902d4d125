import Mathlib.Data.List.Induction
import TelemetryBands.Proofs.Window.Emission
import TelemetryBands.Proofs.Window.Latest

/-!
# Windows over whole histories

A history of samples and watermarks can be cut into windows all at once: a window owns the samples
that lie in it and came before any watermark reached its end. The main statement is that an
aggregator with room for all its windows, fed call by call, emits these windows: each that owns a
sample once, at the first watermark that reaches its end, and with exactly the samples that it owns.
-/

namespace TelemetryBands.Aggregator

/-- The greatest watermark after one more. -/
def raise (seen : Option Millis) (w : Millis) : Option Millis :=
  some ((seen.map fun v => v.later w).getD w)

/-- The greatest watermark of a history that follows on watermarks up to `seen`. -/
def watermarkFrom (seen : Option Millis) : List Call → Option Millis
  | [] => seen
  | .close w :: calls => watermarkFrom (raise seen w) calls
  | .add _ _ :: calls | .clear :: calls => watermarkFrom seen calls

/-- The number of samples of a history. -/
def sampleCount : List Call → Nat
  | [] => 0
  | .add _ _ :: calls => sampleCount calls + 1
  | .close _ :: calls | .clear :: calls => sampleCount calls

/-- The samples of a history, numbered from `arrival`, each with the greatest watermark before
it. -/
def offered (seen : Option Millis) (arrival : Nat) :
    List Call → List (WindowSample × Option Millis)
  | [] => []
  | .add t value :: calls => (⟨t, arrival, value⟩, seen) :: offered seen (arrival + 1) calls
  | .close w :: calls => offered (raise seen w) arrival calls
  | .clear :: calls => offered seen arrival calls

/-- Whether a window owns a sample: it holds the sample's time, whose distance from the origin the
clock can show, and no watermark before the sample has reached its end. -/
def owns (g : WindowGrid) (span : Span) (offer : WindowSample × Option Millis) : Bool :=
  span.contains offer.1.time && decide (g.Reaches offer.1.time) &&
    offer.2.all fun w => decide (w < span.stop)

/-- The samples of a history that a window owns, in the order of their arrival. -/
def owned (g : WindowGrid) (calls : List Call) (span : Span) : List WindowSample :=
  ((offered none 0 calls).filter (owns g span)).map Prod.fst

/-- The windows that a call emits. -/
def Answer.emissions : Answer → List WindowClose
  | .closes l => l
  | .admission _ | .cleared => []

/-- The windows that a history emits. -/
def emissions (answers : List Answer) : List WindowClose :=
  answers.flatMap Answer.emissions

/-- The windows for which a call found no room. -/
def Answer.overflowed : Answer → Nat
  | .admission a => a.overflowed
  | .closes _ | .cleared => 0

/-- No sample of a history found a window without room. -/
def NeverFull (answers : List Answer) : Prop :=
  ∀ answer ∈ answers, answer.overflowed = 0

instance (answers : List Answer) : Decidable (NeverFull answers) :=
  inferInstanceAs (Decidable (∀ answer ∈ answers, _))

theorem watermarkFrom_append (seen : Option Millis) (before after : List Call) :
    watermarkFrom seen (before ++ after) = watermarkFrom (watermarkFrom seen before) after := by
  induction before generalizing seen with
  | nil => rfl
  | cons call before ih => cases call <;> exact ih _

theorem sampleCount_append (before after : List Call) :
    sampleCount (before ++ after) = sampleCount before + sampleCount after := by
  induction before with
  | nil => simp [sampleCount]
  | cons call before ih =>
    cases call with
    | add t value =>
      simp only [List.cons_append, sampleCount, ih]
      omega
    | close w => exact ih
    | clear => exact ih

theorem offered_append (seen : Option Millis) (arrival : Nat) (before after : List Call) :
    offered seen arrival (before ++ after) =
      offered seen arrival before ++
        offered (watermarkFrom seen before) (arrival + sampleCount before) after := by
  induction before generalizing seen arrival with
  | nil => rfl
  | cons call before ih =>
    cases call with
    | add t value =>
      simp only [List.cons_append, offered, watermarkFrom, sampleCount, ih]
      rw [show arrival + 1 + sampleCount before = arrival + (sampleCount before + 1) by omega]
    | close w => exact ih _ _
    | clear => exact ih _ _

theorem owned_append (g : WindowGrid) (before after : List Call) (span : Span) :
    owned g (before ++ after) span = owned g before span ++
      ((offered (watermarkFrom none before) (sampleCount before) after).filter
        (owns g span)).map Prod.fst := by
  unfold owned
  rw [offered_append, Nat.zero_add, List.filter_append, List.map_append]

/-- The greatest watermark of a history reaches an instant if one of its watermarks does. -/
theorem watermarkFrom_reaches (seen : Option Millis) (calls : List Call) (t : Int) :
    (∃ w, watermarkFrom seen calls = some w ∧ t ≤ w.val) ↔
      (∃ w, seen = some w ∧ t ≤ w.val) ∨ ∃ w, Call.close w ∈ calls ∧ t ≤ w.val := by
  induction calls generalizing seen with
  | nil => simp [watermarkFrom]
  | cons call calls ih =>
    cases call with
    | close v =>
      have hraise : (∃ w, raise seen v = some w ∧ t ≤ w.val) ↔
          (∃ w, seen = some w ∧ t ≤ w.val) ∨ t ≤ v.val := by
        cases seen with
        | none => simp [raise]
        | some u =>
          simp only [raise, Option.map_some, Option.getD_some, Option.some.injEq, exists_eq_left',
            Millis.later_val]
          omega
      rw [watermarkFrom, ih, hraise]
      simp only [List.mem_cons, Call.close.injEq, or_and_right, exists_or, exists_eq_left, or_assoc]
    | add u value => simpa [watermarkFrom] using ih seen
    | clear => simpa [watermarkFrom] using ih seen

/-- A history in two parts. -/
theorem run_append (a : Aggregator) (before after : List Call) :
    a.run (before ++ after) =
      (((a.run before).1.run after).1, (a.run before).2 ++ ((a.run before).1.run after).2) := by
  induction before generalizing a with
  | nil => rfl
  | cons call before ih =>
    simp only [List.cons_append, run, ih]

@[simp] theorem length_run (a : Aggregator) (calls : List Call) :
    (a.run calls).2.length = calls.length := by
  induction calls generalizing a with
  | nil => rfl
  | cons call calls ih =>
    simp only [run, List.length_cons, ih]

theorem run_singleton (a : Aggregator) (call : Call) :
    a.run [call] = ((a.apply call).1, [(a.apply call).2]) := rfl

/-- Every window of a history with room for all its windows is accounted for. -/
structure Follows (b : Aggregator) (index : Nat) (rule : Rule) (origin : Millis)
    (calls : List Call) (answers : List Answer) : Prop where
  ruleIndex_eq : b.ruleIndex = index
  rule_eq : b.rule = rule
  grid_eq : b.grid = ⟨origin, rule.windowSize, rule.windowOffset⟩
  closedThrough_eq : b.closedThrough = watermarkFrom none calls
  nextArrival_eq : b.nextArrival = sampleCount calls
  accounts : b.Accounts (owned b.grid calls) (emissions answers)

namespace Follows

variable {b : Aggregator} {index : Nat} {rule : Rule} {origin : Millis} {calls : List Call}
  {answers : List Answer}

/-- The receipt of a sample is what its window owns of it. -/
theorem owned_add (h : b.Follows index rule origin calls answers) (t : Millis)
    (value : SampleValue) (span : Span) :
    owned b.grid (calls ++ [.add t value]) span =
      owned b.grid calls span ++ b.receipt t value span := by
  have hopen : b.hasReached span.stop = false ↔
      (watermarkFrom none calls).all (fun w => decide (w < span.stop)) = true := by
    rw [hasReached, h.closedThrough_eq]
    cases watermarkFrom none calls with
    | none => simp
    | some w =>
      simp only [Option.any_some, Option.all_some, decide_eq_false_iff_not, decide_eq_true_eq,
        Millis.le_def, Millis.lt_def]
      omega
  rw [owned_append, receipt]
  congr 1
  simp only [offered, h.nextArrival_eq]
  by_cases howns : span.contains t ∧ b.grid.Reaches t ∧ b.hasReached span.stop = false
  · rw [if_pos howns, List.filter_cons_of_pos]
    · rfl
    · simp [owns, howns.1, howns.2.1, hopen.mp howns.2.2]
  · rw [if_neg howns, List.filter_cons_of_neg]
    · rfl
    · rw [hopen] at howns
      simpa only [owns, Bool.and_eq_true, decide_eq_true_eq, and_assoc] using howns

/-- One more sample. -/
theorem add (h : b.Follows index rule origin calls answers) {t : Millis} {value : SampleValue}
    (hroom : (b.add t value).2.overflowed = 0) :
    (b.add t value).1.Follows index rule origin (calls ++ [.add t value])
      (answers ++ [.admission (b.add t value).2]) where
  ruleIndex_eq := by rw [add_ruleIndex, h.ruleIndex_eq]
  rule_eq := by rw [add_rule, h.rule_eq]
  grid_eq := by rw [add_grid, h.grid_eq]
  closedThrough_eq := by
    rw [add_closedThrough, h.closedThrough_eq, watermarkFrom_append]
    rfl
  nextArrival_eq := by
    rw [add_nextArrival, h.nextArrival_eq, sampleCount_append]
    rfl
  accounts := by
    have haccounts := h.accounts.add hroom
    have hemissions :
        emissions (answers ++ [.admission (b.add t value).2]) = emissions answers := by
      simp [emissions, Answer.emissions]
    have howned : owned (b.add t value).1.grid (calls ++ [.add t value]) =
        fun span => owned b.grid calls span ++ b.receipt t value span := by
      funext span
      rw [add_grid, h.owned_add]
    rw [hemissions, howned]
    exact haccounts

/-- One more watermark. -/
theorem close (h : b.Follows index rule origin calls answers) (horigin : Millis.first < origin)
    (w : Millis) :
    (b.closeThrough w).1.Follows index rule origin (calls ++ [.close w])
      (answers ++ [.closes (b.closeThrough w).2]) where
  ruleIndex_eq := by rw [closeThrough_ruleIndex, h.ruleIndex_eq]
  rule_eq := by rw [closeThrough_rule, h.rule_eq]
  grid_eq := by rw [closeThrough_grid, h.grid_eq]
  closedThrough_eq := by
    rw [watermarkFrom_append, ← h.closedThrough_eq]
    simp only [watermarkFrom]
    cases hreached : b.hasReached w with
    | true =>
      obtain ⟨v, hv, hle⟩ := hasReached_iff.mp hreached
      have hlater : v.later w = v := Millis.ext (by rw [Millis.later_val]; omega)
      rw [closeThrough_of_reached hreached, hv, raise, Option.map_some, Option.getD_some, hlater]
    | false =>
      rw [closeThrough_closedThrough hreached]
      cases hseen : b.closedThrough with
      | none => rfl
      | some v =>
        have hlt : v.val < w.val := by
          by_contra hle
          rw [hasReached_iff.mpr ⟨v, hseen, by omega⟩] at hreached
          cases hreached
        have hlater : v.later w = w := Millis.ext (by rw [Millis.later_val]; omega)
        rw [raise, Option.map_some, Option.getD_some, hlater]
  nextArrival_eq := by
    rw [closeThrough_nextArrival, h.nextArrival_eq, sampleCount_append]
    rfl
  accounts := by
    have hgrid : Millis.first < b.grid.origin := by rwa [h.grid_eq]
    have haccounts := h.accounts.closeThrough hgrid w
    have hemissions : emissions (answers ++ [.closes (b.closeThrough w).2]) =
        emissions answers ++ (b.closeThrough w).2 := by
      simp [emissions, Answer.emissions]
    have howned : owned (b.closeThrough w).1.grid (calls ++ [.close w]) = owned b.grid calls := by
      funext span
      rw [closeThrough_grid, owned_append]
      simp [offered]
    rw [hemissions, howned]
    exact haccounts

end Follows

/-- An aggregator with room for all its windows follows every history without `clear`. -/
theorem run_follows {index : Nat} {rule : Rule} {origin : Millis} {maxOpen : Nat}
    {calls : List Call} (hrule : rule.flaw? = none) (horigin : Millis.first < origin)
    (hclear : Call.clear ∉ calls)
    (hroom : NeverFull ((new index rule origin maxOpen).run calls).2) :
    ((new index rule origin maxOpen).run calls).1.Follows index rule origin calls
      ((new index rule origin maxOpen).run calls).2 := by
  induction calls using List.reverseRecOn with
  | nil => exact ⟨rfl, rfl, rfl, rfl, rfl, accounts_new hrule⟩
  | append_singleton calls call ih =>
    rw [run_append, run_singleton] at hroom ⊢
    have hfollows := ih (fun hmem => hclear (List.mem_append_left _ hmem))
      (fun answer hmem => hroom answer (List.mem_append_left _ hmem))
    cases call with
    | add t value =>
      have hlast := hroom _ (List.mem_append_right _ List.mem_cons_self)
      exact hfollows.add hlast
    | close w => exact hfollows.close horigin w
    | clear => exact absurd (List.mem_append_right _ List.mem_cons_self) hclear

/-- On watermarks before the last instant of the clock, a window of the grid is passed by the time
its end is reached. -/
theorem Follows.hasPassed_iff {b : Aggregator} {index : Nat} {rule : Rule} {origin : Millis}
    {calls : List Call} {answers : List Answer} (h : b.Follows index rule origin calls answers)
    (hlast : ∀ w, Call.close w ∈ calls → w < Millis.last) {span : Span}
    (hholds : b.grid.Holds span) :
    b.HasPassed span ↔ ∃ w, Call.close w ∈ calls ∧ span.stop ≤ w := by
  have hreaches := watermarkFrom_reaches none calls (b.grid.endOf span)
  rw [HasPassed, h.closedThrough_eq, hreaches]
  simp only [reduceCtorEq, false_and, exists_false, false_or]
  refine exists_congr fun w => and_congr_right fun hmem => ?_
  exact hholds.endOf_le_iff h.accounts.keeps.proper (hlast w hmem)

/-- What a watermark emits after a history. -/
theorem Follows.mem_closeThrough {b : Aggregator} {index : Nat} {rule : Rule} {origin : Millis}
    {calls : List Call} {answers : List Answer} (h : b.Follows index rule origin calls answers)
    (horigin : Millis.first < origin) (hlast : ∀ w, Call.close w ∈ calls → w < Millis.last)
    {w : Millis} (hw : w < Millis.last) {c : WindowClose} :
    c ∈ (b.closeThrough w).2 ↔ ∃ span, b.grid.Holds span ∧ owned b.grid calls span ≠ [] ∧
      span.stop ≤ w ∧ (∀ v, Call.close v ∈ calls → v < span.stop) ∧
      c = ⟨index, span, (owned b.grid calls span).length,
        Aggregate.ofSamples rule (owned b.grid calls span)⟩ := by
  cases hreached : b.hasReached w with
  | true =>
    rw [closeThrough_of_reached hreached]
    simp only [List.not_mem_nil, false_iff]
    rintro ⟨span, -, -, hend, hopen, -⟩
    obtain ⟨v, hv, hle⟩ := hasReached_iff.mp hreached
    rw [h.closedThrough_eq] at hv
    rcases (watermarkFrom_reaches none calls w.val).mp ⟨v, hv, hle⟩ with ⟨u, hu, -⟩ | ⟨u, hmem, hu⟩
    · cases hu
    · have hlt := hopen u hmem
      simp only [Millis.lt_def, Millis.le_def] at *
      omega
  | false =>
    have hgrid : Millis.first < b.grid.origin := by rwa [h.grid_eq]
    rw [h.accounts.keeps.mem_closeThrough hgrid hreached]
    refine exists_congr fun span => and_congr_right fun hholds => and_congr_right fun _ => ?_
    have hopen : ¬ b.HasPassed span ↔ ∀ v, Call.close v ∈ calls → v < span.stop := by
      rw [h.hasPassed_iff hlast hholds, not_exists]
      refine forall_congr' fun v => ?_
      rw [not_and]
      refine imp_congr_right fun _ => ?_
      simp only [Millis.lt_def, Millis.le_def]
      omega
    rw [hopen, hholds.endOf_le_iff h.accounts.keeps.proper hw, closeOf, h.ruleIndex_eq, h.rule_eq]
    exact and_left_comm

/-- The window aggregator does online what the cutting of a whole history into windows does at once.
Each watermark emits, in the order of their ends, the windows that own a sample by then and whose
end no watermark before it has reached. Over the whole history a window is emitted exactly if it
owns a sample and a watermark reaches its end, which can only come after the samples that it owns;
it is emitted once, with exactly these samples in the order of their arrival, and its last value is
that of the sample with the greatest time, of several the one that arrived last. -/
theorem run_emits_batches {index : Nat} {rule : Rule} {origin : Millis} {maxOpen : Nat}
    {calls : List Call} (hrule : rule.flaw? = none) (horigin : origin ≠ Millis.first)
    (hclear : Call.clear ∉ calls) (hlast : ∀ w, Call.close w ∈ calls → w < Millis.last)
    (hroom : NeverFull ((new index rule origin maxOpen).run calls).2) :
    let grid : WindowGrid := ⟨origin, rule.windowSize, rule.windowOffset⟩
    let answers := ((new index rule origin maxOpen).run calls).2
    (∀ before w after, calls = before ++ .close w :: after →
      ∃ closes, answers[before.length]? = some (.closes closes) ∧
        closes.Pairwise (fun c d => c.span.stop < d.span.stop) ∧
        ∀ c, c ∈ closes ↔ ∃ span, grid.Holds span ∧ owned grid before span ≠ [] ∧
          span.stop ≤ w ∧ (∀ v, Call.close v ∈ before → v < span.stop) ∧
          c = ⟨index, span, (owned grid before span).length,
            Aggregate.ofSamples rule (owned grid before span)⟩) ∧
    (∀ c, c ∈ emissions answers ↔ ∃ span, grid.Holds span ∧ owned grid calls span ≠ [] ∧
      (∃ w, Call.close w ∈ calls ∧ span.stop ≤ w) ∧
      c = ⟨index, span, (owned grid calls span).length,
        Aggregate.ofSamples rule (owned grid calls span)⟩) ∧
    ((emissions answers).map WindowClose.span).Nodup ∧
    (rule.aggregation = .last → ∀ c ∈ emissions answers, ∃ s ∈ owned grid calls c.span,
      (∀ other ∈ owned grid calls c.span,
        other.time < s.time ∨ (other.time = s.time ∧ other.arrival ≤ s.arrival)) ∧
      c.aggregate = s.value.numeric.map .value) := by
  intro grid answers
  have hbehind : Millis.first < origin := by
    have hlow := origin.first_le
    have hne : origin.val ≠ Millis.first.val := fun heq => horigin (Millis.ext heq)
    simp only [Millis.lt_def, Millis.first_val] at *
    omega
  have hfollows := run_follows hrule hbehind hclear hroom
  have hmem : ∀ c, c ∈ emissions answers ↔ ∃ span, grid.Holds span ∧ owned grid calls span ≠ [] ∧
      (∃ w, Call.close w ∈ calls ∧ span.stop ≤ w) ∧
      c = ⟨index, span, (owned grid calls span).length,
        Aggregate.ofSamples rule (owned grid calls span)⟩ := by
    intro c
    rw [hfollows.accounts.mem, Emitted]
    refine exists_congr fun span => ?_
    rw [hfollows.grid_eq]
    refine and_congr_right fun hholds => and_congr_right fun _ => ?_
    rw [hfollows.hasPassed_iff hlast (by rwa [hfollows.grid_eq]), closeOf, hfollows.ruleIndex_eq,
      hfollows.rule_eq]
  refine ⟨?_, hmem, hfollows.accounts.nodup, ?_⟩
  · rintro before w after rfl
    have hsplit : answers[before.length]? =
        some (.closes (((new index rule origin maxOpen).run before).1.closeThrough w).2) := by
      simp only [answers, run_append]
      rw [List.getElem?_append_right (by rw [length_run]), length_run, Nat.sub_self]
      rfl
    have hbefore : ((new index rule origin maxOpen).run before).1.Follows index rule origin before
        ((new index rule origin maxOpen).run before).2 := by
      apply run_follows hrule hbehind
      · exact fun hmem => hclear (List.mem_append_left _ hmem)
      · intro answer hmem
        apply hroom
        rw [run_append]
        exact List.mem_append_left _ hmem
    have hgrid := hbefore.grid_eq
    have hbeforeLast : ∀ v, Call.close v ∈ before → v < Millis.last :=
      fun v hmem => hlast v (List.mem_append_left _ hmem)
    refine ⟨_, hsplit, ?_, ?_⟩
    · exact hbefore.accounts.keeps.regular.pairwise_closeThrough
    · intro c
      have hw := hlast w (List.mem_append_right _ List.mem_cons_self)
      rw [hbefore.mem_closeThrough hbehind hbeforeLast hw, hgrid]
  · intro hrulelast c hc
    obtain ⟨span, -, hne, -, rfl⟩ := (hmem c).mp hc
    exact Aggregate.ofSamples_last hrulelast hne

/-- Overlapping windows with a partly late sample and a watermark that comes too late to count. -/
theorem run_emits_batches_overlapping :
    let rule : Rule := ⟨1, some 0.0, none, .both, 3000, 1000, .last, none⟩
    let calls : List Call := [.add 2500 (.integer 7), .add 400 (.integer 9), .close 3000,
      .add 2800 (.integer 5), .close 1000, .close 4500]
    let answers := ((new 0 rule 0 8).run calls).2
    rule.flaw? = none ∧ (0 : Millis) ≠ Millis.first ∧ Call.clear ∉ calls ∧
      (∀ w, Call.close w ∈ calls → w < Millis.last) ∧ NeverFull answers ∧
      ⟨0, ⟨1000, 4000⟩, 2, .ok (.value 5.0)⟩ ∈ emissions answers := by
  intro rule calls answers
  have hrule : rule.flaw? = none := by decide
  have horigin : (0 : Millis) ≠ Millis.first := by decide
  have hclear : Call.clear ∉ calls := by decide
  have hlast : ∀ w, Call.close w ∈ calls → w < Millis.last := by
    simp [calls]
    decide
  have hroom : NeverFull answers := by decide
  refine ⟨hrule, horigin, hclear, hlast, hroom, ?_⟩
  apply ((run_emits_batches hrule horigin hclear hlast hroom).2.1 _).mpr
  refine ⟨⟨1000, 4000⟩, ⟨⟨1, rfl⟩, rfl⟩, by decide, ⟨4500, by decide, by decide⟩, ?_⟩
  rfl

/-- A sample that lies in a window of the grid, but farther behind the origin than the clock can
show, is in no window. -/
theorem far_sample_in_no_window :
    let rule : Rule := ⟨1, some 0.0, none, .both, 1000, 1000, .count, none⟩
    let origin := Millis.clamp (-9000000000000000000)
    let time := Millis.clamp 9000000000000000000
    let watermark := Millis.clamp 9000000000000001000
    let calls : List Call := [.add time (.number 1.0), .close watermark]
    let answers := ((new 0 rule origin 8).run calls).2
    rule.flaw? = none ∧ origin ≠ Millis.first ∧ Call.clear ∉ calls ∧
      (∀ w, Call.close w ∈ calls → w < Millis.last) ∧ NeverFull answers ∧
      (⟨origin, rule.windowSize, rule.windowOffset⟩ : WindowGrid).Holds ⟨time, watermark⟩ ∧
      (⟨time, watermark⟩ : Span).contains time = true ∧ emissions answers = [] := by
  intro rule origin time watermark calls answers
  have hlast : ∀ w, Call.close w ∈ calls → w < Millis.last := by
    simp [calls]
    decide
  have hroom : NeverFull answers := by decide
  have hholds : (⟨origin, rule.windowSize, rule.windowOffset⟩ : WindowGrid).Holds
      ⟨time, watermark⟩ := ⟨⟨18000000000000000, by decide⟩, by decide⟩
  exact ⟨by decide, by decide, by decide, hlast, hroom, hholds, by decide, rfl⟩

end TelemetryBands.Aggregator
