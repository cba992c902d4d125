import Mathlib.Data.List.Induction
import TelemetryBands.Proofs.Clock.Saturation
import TelemetryBands.Publication.Event
import TelemetryBands.Publication.Suppressor

/-!
# Logs of a state

The log of a state lists the windows that put a topic into the state or kept it there, the withheld
ones too. This file says what the repeat policies allow in terms of the log alone, and proves that a
record, which keeps three values of it, decides by the policy.
-/

namespace TelemetryBands

/-- A window that put a topic into a state or kept it there. -/
structure Entry where
  state : UInt32
  /-- Whether the topic came into the state or stayed in it. -/
  kind : EventKind
  windowEnd : Millis
  published : Bool
  deriving DecidableEq, Repr

/-- The last entry of a log that was published. -/
def lastPublished? (log : List Entry) : Option Entry :=
  (log.filter (·.published)).getLast?

/-- How many entries of a log were published. -/
def publishedIn (log : List Entry) : Nat :=
  log.countP (·.published)

/-- Whether an entry resets the count: a transition does, and where there is a period an entry that
ends at least the period after the last reset. -/
def Entry.resets (e : Entry) (period : Option Millis) (current : List Entry) : Bool :=
  decide (e.kind = .transition) ||
    period.any fun span =>
      current.head?.all fun reset => decide (span.val ≤ e.windowEnd.val - reset.windowEnd.val)

/-- The entries since the last reset that are still there when an entry comes: none if it resets the
count. -/
def Entry.carried (e : Entry) (period : Option Millis) (current : List Entry) : List Entry :=
  if e.resets period current then [] else current

/-- The entries of a log from the last reset on. -/
def sinceReset (period : Option Millis) (log : List Entry) : List Entry :=
  log.foldl (fun current e => e.carried period current ++ [e]) []

/-- What a repeat policy demands of the log of a state. -/
def RateLimited : Option RepeatPolicy → List Entry → Prop
  | none, log => ∀ e ∈ log, e.kind = .repetition → e.published = false
  | some (.duration span), log =>
    ∀ before e after, log = before ++ e :: after → e.kind = .repetition →
      ∃ d, lastPublished? before = some d ∧
        (e.published = true ↔ span.val ≤ e.windowEnd.val - d.windowEnd.val)
  | some (.count max none), log =>
    ∀ before e middle after, log = before ++ e :: (middle ++ after) → e.kind = .transition →
      (∀ m ∈ middle, m.kind = .repetition) →
        publishedIn middle + 1 ≤ max.toNat ∧
          ∀ x ∈ after.head?, x.published = false → publishedIn middle + 1 = max.toNat
  | some (.count max (some span)), log =>
    ∀ before after, log = before ++ after →
      publishedIn (sinceReset (some span) before) ≤ max.toNat ∧
        (∀ reset ∈ (sinceReset (some span) before).head?, ∀ e ∈ sinceReset (some span) before,
          e.windowEnd.val - reset.windowEnd.val < span.val) ∧
        ∀ e ∈ after.head?, e.published = false →
          e.resets (some span) (sinceReset (some span) before) = false ∧
            publishedIn (sinceReset (some span) before) = max.toNat

/-- A window that ends the period after the last reset is a reset itself, so it may not be withheld,
although a window before it was. -/
example :
    (⟨1, .repetition, 10000, false⟩ : Entry).resets (some 10000)
      (sinceReset (some 10000) [⟨1, .transition, 0, true⟩, ⟨1, .repetition, 5000, false⟩]) =
        true := by
  decide

theorem lastPublished?_concat (log : List Entry) (e : Entry) :
    lastPublished? (log ++ [e]) = if e.published then some e else lastPublished? log := by
  unfold lastPublished?
  cases h : e.published <;> simp [h]

@[simp] theorem publishedIn_append (first second : List Entry) :
    publishedIn (first ++ second) = publishedIn first + publishedIn second :=
  List.countP_append

theorem publishedIn_singleton (e : Entry) :
    publishedIn [e] = if e.published then 1 else 0 := by
  simp [publishedIn, List.countP_singleton]

theorem sinceReset_concat (period : Option Millis) (log : List Entry) (e : Entry) :
    sinceReset period (log ++ [e]) = e.carried period (sinceReset period log) ++ [e] := by
  rw [sinceReset, List.foldl_append]
  rfl

theorem Entry.carried_of_resets {e : Entry} {period : Option Millis} {current : List Entry}
    (h : e.resets period current = true) : e.carried period current = [] :=
  if_pos h

theorem Entry.carried_of_not_resets {e : Entry} {period : Option Millis} {current : List Entry}
    (h : e.resets period current = false) : e.carried period current = current :=
  if_neg (Bool.eq_false_iff.mp h)

/-- A log that is not empty has entries since its last reset. -/
theorem sinceReset_ne_nil (period : Option Millis) {log : List Entry} (h : log ≠ []) :
    sinceReset period log ≠ [] := by
  rcases List.eq_nil_or_concat log with rfl | ⟨before, e, rfl⟩
  · exact absurd rfl h
  · rw [List.concat_eq_append, sinceReset_concat]
    exact List.concat_ne_nil _ _

/-- Entries that do not reset the count gather behind the last reset. -/
theorem sinceReset_append {period : Option Millis} {before middle : List Entry}
    (h : ∀ m ∈ middle, ∀ current, m.resets period current = false) :
    sinceReset period (before ++ middle) = sinceReset period before ++ middle := by
  induction middle using List.reverseRecOn with
  | nil => rw [List.append_nil, List.append_nil]
  | append_singleton middle m ih =>
    have hlast := h m (by simp) (sinceReset period (before ++ middle))
    have hrest := ih fun x hx => h x (List.mem_append_left _ hx)
    rw [← List.append_assoc, sinceReset_concat, Entry.carried_of_not_resets hlast, hrest,
      List.append_assoc]

/-- All entries since the last reset end less than the period after it. -/
theorem lt_of_mem_sinceReset {span : Millis} (hspan : 0 < span.val) {log : List Entry}
    {reset e : Entry} (hreset : reset ∈ (sinceReset (some span) log).head?)
    (he : e ∈ sinceReset (some span) log) : e.windowEnd.val - reset.windowEnd.val < span.val := by
  induction log using List.reverseRecOn generalizing e with
  | nil => cases he
  | append_singleton log last ih =>
    rw [sinceReset_concat] at hreset he
    cases hresets : last.resets (some span) (sinceReset (some span) log) with
    | true =>
      rw [Entry.carried_of_resets hresets] at hreset he
      obtain rfl : last = reset := Option.some.inj hreset
      rw [List.mem_singleton.mp he]
      omega
    | false =>
      rw [Entry.carried_of_not_resets hresets] at hreset he
      simp only [Entry.resets, Option.any_some, Bool.or_eq_false_iff] at hresets
      obtain ⟨-, hearly⟩ := hresets
      cases hhead : (sinceReset (some span) log).head? with
      | none =>
        rw [hhead] at hearly
        cases hearly
      | some first =>
        rw [hhead, Option.all_some, decide_eq_false_iff_not] at hearly
        rw [List.head?_append, hhead, Option.some_or, Option.mem_some] at hreset
        subst hreset
        rcases List.mem_append.mp he with he | he
        · exact ih hhead he
        · rw [List.mem_singleton.mp he]
          omega

/-- A policy that a rule may have. -/
def RepeatPolicy.Proper : RepeatPolicy → Prop
  | .duration span => 0 ≤ span.val
  | .count max period => 0 < max.toNat ∧ ∀ span ∈ period, 0 < span.val

/-- What a policy demands of an entry, by the log before it. -/
def Respects (before : List Entry) (e : Entry) : Option RepeatPolicy → Prop
  | none => e.kind = .repetition → e.published = false
  | some (.duration span) =>
    e.kind = .repetition →
      ∃ d, lastPublished? before = some d ∧
        (e.published = true ↔ span.val ≤ e.windowEnd.val - d.windowEnd.val)
  | some (.count max period) =>
    publishedIn (sinceReset period (before ++ [e])) ≤ max.toNat ∧
      (e.published = false →
        e.resets period (sinceReset period before) = false ∧
          publishedIn (sinceReset period before) = max.toNat)

/-- A policy is respected in a whole log. -/
def Respected (policy : Option RepeatPolicy) (log : List Entry) : Prop :=
  ∀ before e after, log = before ++ e :: after → Respects before e policy

theorem respected_nil (policy : Option RepeatPolicy) : Respected policy [] := by
  intro before e after hsplit
  cases before <;> cases hsplit

/-- A log stays within a policy by an entry that respects it. -/
theorem Respected.concat {policy : Option RepeatPolicy} {log : List Entry} {e : Entry}
    (h : Respected policy log) (he : Respects log e policy) : Respected policy (log ++ [e]) := by
  intro before x after hsplit
  rcases List.eq_nil_or_concat after with rfl | ⟨after, last, rfl⟩
  · obtain ⟨rfl, hlast⟩ := List.append_inj' hsplit rfl
    cases hlast
    exact he
  · rw [List.concat_eq_append, ← List.cons_append, ← List.append_assoc] at hsplit
    obtain ⟨hlog, -⟩ := List.append_inj' hsplit rfl
    exact h before x after hlog

/-- Without a period, the entries since the last reset are a transition and what follows it. -/
theorem sinceReset_transition (before : List Entry) {middle : List Entry} {e : Entry}
    (he : e.kind = .transition) (hmiddle : ∀ m ∈ middle, m.kind = .repetition) :
    sinceReset none (before ++ e :: middle) = e :: middle := by
  have hresets : e.resets none (sinceReset none before) = true := by simp [Entry.resets, he]
  have hstay : ∀ m ∈ middle, ∀ current, m.resets none current = false := by
    intro m hm current
    simp [Entry.resets, hmiddle m hm]
  rw [← List.singleton_append, ← List.append_assoc, sinceReset_append hstay, sinceReset_concat,
    Entry.carried_of_resets hresets, List.nil_append]

namespace Respected

variable {max : UInt32} {period : Option Millis} {log : List Entry}

/-- At no time more than the greatest count was published since the last reset. -/
theorem publishedIn_le (h : Respected (some (.count max period)) log) {before after : List Entry}
    (hsplit : log = before ++ after) : publishedIn (sinceReset period before) ≤ max.toNat := by
  rcases List.eq_nil_or_concat before with rfl | ⟨before, e, rfl⟩
  · exact Nat.zero_le _
  · rw [List.concat_eq_append, List.append_assoc] at hsplit
    rw [List.concat_eq_append]
    exact (h before e after hsplit).1

/-- An entry that is withheld does not reset the count, and the greatest count was published since
the last reset. -/
theorem full_of_withheld (h : Respected (some (.count max period)) log)
    {before after : List Entry} (hsplit : log = before ++ after) {e : Entry} (he : e ∈ after.head?)
    (hwithheld : e.published = false) :
    e.resets period (sinceReset period before) = false ∧
      publishedIn (sinceReset period before) = max.toNat := by
  obtain ⟨rest, rfl⟩ := List.head?_eq_some_iff.mp he
  exact (h before e rest hsplit).2 hwithheld

end Respected

/-- A log that respects a policy entry by entry, and in which every transition is published, is
within the policy as a whole. -/
theorem rateLimited_of_respected {policy : Option RepeatPolicy} {log : List Entry}
    (hpolicy : ∀ q ∈ policy, q.Proper) (h : Respected policy log)
    (htransitions : ∀ e ∈ log, e.kind = .transition → e.published = true) :
    RateLimited policy log := by
  rcases policy with _ | span | ⟨max, _ | span⟩
  · intro e he
    obtain ⟨before, after, hsplit⟩ := List.append_of_mem he
    exact h before e after hsplit
  · exact h
  · intro before e middle after hsplit he hmiddle
    have hpublished : e.published = true := htransitions e (by simp [hsplit]) he
    have hsince := sinceReset_transition before he hmiddle
    have hcount : publishedIn (sinceReset none (before ++ e :: middle)) =
        publishedIn middle + 1 := by
      rw [hsince, ← List.singleton_append, publishedIn_append, publishedIn_singleton,
        if_pos hpublished, Nat.add_comm]
    rw [← List.cons_append, ← List.append_assoc] at hsplit
    rw [← hcount]
    exact ⟨h.publishedIn_le hsplit,
      fun x hx hwithheld => (h.full_of_withheld hsplit hx hwithheld).2⟩
  · intro before after hsplit
    obtain ⟨-, hperiod⟩ := hpolicy _ rfl
    exact ⟨h.publishedIn_le hsplit,
      fun reset hreset e he => lt_of_mem_sinceReset (hperiod span rfl) hreset he,
      fun e he => h.full_of_withheld hsplit he⟩

namespace PublicationRecord

/-- A record keeps of a log when it was published last. -/
def KeepsLast (r : PublicationRecord) (log : List Entry) : Prop :=
  r.lastPublished = (lastPublished? log).map Entry.windowEnd

/-- A record keeps of a log the last reset and how much was published since. -/
structure KeepsCount (r : PublicationRecord) (max : UInt32) (period : Option Millis)
    (log : List Entry) : Prop where
  count_eq : r.count.toNat = publishedIn (sinceReset period log)
  count_le : r.count.toNat ≤ max.toNat
  periodStart_eq : r.periodStart = (sinceReset period log).head?.map Entry.windowEnd

/-- A record keeps what a policy asks about a log. -/
def Keeps (r : PublicationRecord) (log : List Entry) : Option RepeatPolicy → Prop
  | none => True
  | some (.duration _) => r.KeepsLast log
  | some (.count max period) => r.KeepsCount max period log

/-- The record that decided about an entry keeps the log with it. -/
theorem keeps_tally {r : PublicationRecord} {log : List Entry} {policy : Option RepeatPolicy}
    (h : r.Keeps log policy) (decision : Decision) : (r.tally decision).Keeps log policy := by
  rcases policy with _ | _ | _
  · trivial
  · cases decision <;> exact h
  · cases decision <;> exact ⟨h.count_eq, h.count_le, h.periodStart_eq⟩

theorem hasPassed_some {span t : Millis} (hspan : 0 ≤ span.val) (now : Millis) :
    hasPassed span (some t) now = decide (span.val ≤ now.val - t.val) := by
  have hhigh := span.le_last
  rw [hasPassed, Option.all_some, decide_eq_decide, Millis.le_def, Millis.satSub_val]
  omega

variable {r : PublicationRecord} {log : List Entry} {e : Entry} {policy : Option RepeatPolicy}

/-- A transition is within every policy, and the record keeps it. -/
theorem keeps_enter (hpolicy : ∀ q ∈ policy, q.Proper) (hkind : e.kind = .transition)
    (hpublished : e.published = true) :
    (r.enter e.windowEnd).Keeps (log ++ [e]) policy ∧ Respects log e policy := by
  have hnot : ¬ e.kind = .repetition := by
    rw [hkind]
    exact EventKind.noConfusion
  rcases policy with _ | span | ⟨max, period⟩
  · exact ⟨trivial, fun hrepetition => absurd hrepetition hnot⟩
  · refine ⟨?_, fun hrepetition => absurd hrepetition hnot⟩
    show some e.windowEnd = _
    rw [lastPublished?_concat, if_pos hpublished, Option.map_some]
  · obtain ⟨hmax, -⟩ := hpolicy _ rfl
    have hsince : sinceReset period (log ++ [e]) = [e] := by
      rw [sinceReset_concat, Entry.carried_of_resets, List.nil_append]
      simp [Entry.resets, hkind]
    have hone : publishedIn [e] = 1 := by rw [publishedIn_singleton, if_pos hpublished]
    refine ⟨⟨?_, hmax, ?_⟩, ?_, fun hwithheld => ?_⟩
    · rw [hsince, hone]
      rfl
    · rw [hsince]
      rfl
    · rw [hsince, hone]
      exact hmax
    · rw [hpublished] at hwithheld
      cases hwithheld

/-- With a span between publications, a window in which the state persists is published when the
span has passed. -/
theorem keeps_repeated_duration {span : Millis} {next : PublicationRecord} {decision : Decision}
    (hspan : 0 ≤ span.val) (h : r.KeepsLast log) (hlog : ∃ d, lastPublished? log = some d)
    (hdecides : r.repeated (some (.duration span)) e.windowEnd = (next, decision))
    (hpublished : e.published = true ↔ decision = .deliver) :
    next.KeepsLast (log ++ [e]) ∧ Respects log e (some (.duration span)) := by
  obtain ⟨d, hd⟩ := hlog
  have hlast : r.lastPublished = some d.windowEnd := by rw [h, hd, Option.map_some]
  have hpassed := hasPassed_some (t := d.windowEnd) hspan e.windowEnd
  simp only [repeated, hlast, hpassed, decide_eq_true_eq] at hdecides
  by_cases hdue : span.val ≤ e.windowEnd.val - d.windowEnd.val
  · rw [if_pos hdue] at hdecides
    obtain ⟨rfl, rfl⟩ := Prod.mk.inj hdecides
    have hyes : e.published = true := hpublished.mpr rfl
    refine ⟨?_, fun _ => ⟨d, hd, iff_of_true hyes hdue⟩⟩
    rw [KeepsLast, lastPublished?_concat, if_pos hyes, Option.map_some]
  · rw [if_neg hdue] at hdecides
    obtain ⟨rfl, rfl⟩ := Prod.mk.inj hdecides
    have hnot : ¬ e.published = true := fun hyes => nomatch hpublished.mp hyes
    refine ⟨?_, fun _ => ⟨d, hd, iff_of_false hnot hdue⟩⟩
    rw [KeepsLast, lastPublished?_concat, if_neg hnot]
    exact h

/-- A record keeps what of a log is carried to an entry, and where the count was reset by then. -/
structure Carries (r : PublicationRecord) (max : UInt32) (period : Option Millis)
    (log : List Entry) (e : Entry) : Prop where
  count_eq : r.count.toNat = publishedIn (e.carried period (sinceReset period log))
  count_le : r.count.toNat ≤ max.toNat
  periodStart_eq : r.periodStart = (sinceReset period (log ++ [e])).head?.map Entry.windowEnd

variable {max : UInt32} {period : Option Millis}

/-- The record starts a period anew exactly when the entry resets the count. -/
theorem KeepsCount.startPeriod_eq (h : r.KeepsCount max period log)
    (hperiod : ∀ span ∈ period, 0 < span.val) (hkind : e.kind = .repetition) :
    r.startPeriod period e.windowEnd =
      if e.resets period (sinceReset period log) then
        { r with count := 0, periodStart := some e.windowEnd }
      else r := by
  cases period with
  | none => simp [startPeriod, Entry.resets, hkind]
  | some span =>
    have hpassed : hasPassed span r.periodStart e.windowEnd =
        e.resets (some span) (sinceReset (some span) log) := by
      rw [h.periodStart_eq, Entry.resets, hkind, Option.any_some]
      cases (sinceReset (some span) log).head? with
      | none => rfl
      | some reset => exact hasPassed_some (Int.le_of_lt (hperiod span rfl)) e.windowEnd
    rw [startPeriod, hpassed]

/-- Starting a period leaves in the record what is carried to the entry. -/
theorem KeepsCount.carries (h : r.KeepsCount max period log)
    (hperiod : ∀ span ∈ period, 0 < span.val) (hlog : log ≠ []) (hkind : e.kind = .repetition) :
    (r.startPeriod period e.windowEnd).Carries max period log e := by
  have hsince := sinceReset_concat period log e
  rw [h.startPeriod_eq hperiod hkind]
  cases hresets : e.resets period (sinceReset period log) with
  | true =>
    have hcarried := Entry.carried_of_resets hresets
    rw [hcarried] at hsince
    refine ⟨?_, Nat.zero_le _, ?_⟩
    · rw [hcarried]
      rfl
    · rw [hsince]
      rfl
  | false =>
    have hcarried := Entry.carried_of_not_resets hresets
    rw [hcarried] at hsince
    rw [if_neg Bool.false_ne_true]
    refine ⟨?_, h.count_le, ?_⟩
    · rw [hcarried]
      exact h.count_eq
    · rw [h.periodStart_eq, hsince, List.head?_append,
        List.head?_eq_some_head (sinceReset_ne_nil period hlog), Option.some_or]

namespace Carries

theorem publishedIn_eq (h : r.Carries max period log e) :
    publishedIn (sinceReset period (log ++ [e])) =
      r.count.toNat + if e.published then 1 else 0 := by
  rw [sinceReset_concat, publishedIn_append, publishedIn_singleton, h.count_eq]

/-- As long as there is room, an entry is published and counted. -/
theorem deliver (h : r.Carries max period log e) (hroom : r.count < max)
    (hpublished : e.published = true) :
    { r with count := r.count + 1, lastPublished := some e.windowEnd }.KeepsCount max period
        (log ++ [e]) ∧ Respects log e (some (.count max period)) := by
  have hlt : r.count.toNat < max.toNat := UInt32.lt_iff_toNat_lt.mp hroom
  have hnext : (r.count + 1).toNat = r.count.toNat + 1 := by
    have := max.toNat_lt
    rw [UInt32.toNat_add, UInt32.toNat_one]
    omega
  have hcount := h.publishedIn_eq
  rw [if_pos hpublished] at hcount
  refine ⟨⟨hnext.trans hcount.symm, ?_, h.periodStart_eq⟩, by omega, fun hwithheld => ?_⟩
  · show (r.count + 1).toNat ≤ max.toNat
    omega
  · rw [hpublished] at hwithheld
    cases hwithheld

/-- When there is no room left, an entry is withheld, and it has not reset the count. -/
theorem suppress (h : r.Carries max period log e) (hmax : 0 < max.toNat)
    (hroom : ¬ r.count < max) (hwithheld : ¬ e.published = true) :
    r.KeepsCount max period (log ++ [e]) ∧ Respects log e (some (.count max period)) := by
  have hle := h.count_le
  have hfull : r.count.toNat = max.toNat := by
    rw [UInt32.lt_iff_toNat_lt] at hroom
    omega
  have hcount := h.publishedIn_eq
  rw [if_neg hwithheld] at hcount
  have hcarried := h.count_eq
  refine ⟨⟨hcount.symm, hle, h.periodStart_eq⟩, by omega, fun _ => ?_⟩
  cases hresets : e.resets period (sinceReset period log) with
  | true =>
    have hzero : publishedIn [] = 0 := rfl
    rw [Entry.carried_of_resets hresets] at hcarried
    omega
  | false =>
    rw [Entry.carried_of_not_resets hresets] at hcarried
    exact ⟨rfl, by omega⟩

end Carries

/-- With a greatest count, a window in which the state persists is published as long as the count
since the last reset is less. -/
theorem keeps_repeated_count {next : PublicationRecord} {decision : Decision}
    (hpolicy : (RepeatPolicy.count max period).Proper) (h : r.KeepsCount max period log)
    (hlog : log ≠ []) (hkind : e.kind = .repetition)
    (hdecides : r.repeated (some (.count max period)) e.windowEnd = (next, decision))
    (hpublished : e.published = true ↔ decision = .deliver) :
    next.KeepsCount max period (log ++ [e]) ∧ Respects log e (some (.count max period)) := by
  obtain ⟨hmax, hperiod⟩ := hpolicy
  have hcarries := h.carries hperiod hlog hkind
  simp only [repeated] at hdecides
  by_cases hroom : (r.startPeriod period e.windowEnd).count < max
  · rw [if_pos hroom] at hdecides
    obtain ⟨rfl, rfl⟩ := Prod.mk.inj hdecides
    exact hcarries.deliver hroom (hpublished.mpr rfl)
  · rw [if_neg hroom] at hdecides
    obtain ⟨rfl, rfl⟩ := Prod.mk.inj hdecides
    exact hcarries.suppress hmax hroom fun hyes => nomatch hpublished.mp hyes

/-- An entry in which the state persists is within the policy, and the record keeps it. -/
theorem keeps_repeated {next : PublicationRecord} {decision : Decision}
    (hpolicy : ∀ q ∈ policy, q.Proper) (h : r.Keeps log policy)
    (hlog : ∃ d, lastPublished? log = some d) (hkind : e.kind = .repetition)
    (hdecides : r.repeated policy e.windowEnd = (next, decision))
    (hpublished : e.published = true ↔ decision = .deliver) :
    next.Keeps (log ++ [e]) policy ∧ Respects log e policy := by
  rcases policy with _ | span | ⟨max, period⟩
  · obtain ⟨rfl, rfl⟩ := Prod.mk.inj hdecides
    exact ⟨trivial, fun _ => Bool.eq_false_iff.mpr fun hyes => nomatch hpublished.mp hyes⟩
  · exact keeps_repeated_duration (hpolicy _ rfl) h hlog hdecides hpublished
  · refine keeps_repeated_count (hpolicy _ rfl) h ?_ hkind hdecides hpublished
    rintro rfl
    obtain ⟨d, hd⟩ := hlog
    cases hd

end PublicationRecord

end TelemetryBands
