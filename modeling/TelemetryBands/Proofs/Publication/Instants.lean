import TelemetryBands.Proofs.Publication.Logs

/-!
# Repetitions at one instant

Two windows that end together ask for a publication at the same instant. After the first one was
published, the record of the state shows that instant, and the second one passes only if the repeat
policy asks for no time at all, or allows more than one publication.
-/

namespace TelemetryBands

/-- Whether a policy can let a state pass twice at one instant. -/
def RepeatPolicy.Redoubles : RepeatPolicy → Prop
  | .duration span => span = 0
  | .count max _ => 1 < max

namespace PublicationRecord

/-- A record of a state that was published at an instant. -/
def Sated (r : PublicationRecord) (policy : Option RepeatPolicy) (now : Millis) : Prop :=
  match policy with
  | none => True
  | some (.duration _) => r.lastPublished = some now
  | some (.count _ period) =>
    0 < r.count ∧ ∀ span ∈ period, hasPassed span r.periodStart now = false

variable {r next : PublicationRecord} {policy : Option RepeatPolicy} {now : Millis}

/-- No time has passed since now. -/
theorem hasPassed_self {span : Millis} (hspan : 0 < span.val) (now : Millis) :
    hasPassed span (some now) now = false := by
  rw [hasPassed_some (Int.le_of_lt hspan), decide_eq_false_iff_not]
  omega

theorem sated_enter (hpolicy : ∀ q ∈ policy, q.Proper) : (r.enter now).Sated policy now := by
  rcases policy with _ | span | ⟨max, period⟩
  · trivial
  · rfl
  · obtain ⟨-, hperiod⟩ := hpolicy _ rfl
    have hone : (0 : UInt32) < 1 := by decide
    exact ⟨hone, fun span hspan => hasPassed_self (hperiod span hspan) now⟩

/-- A period that was just looked at is not over. -/
theorem hasPassed_startPeriod (r : PublicationRecord) (now : Millis) {period : Option Millis}
    (hperiod : ∀ span ∈ period, 0 < span.val) :
    ∀ span ∈ period, hasPassed span (r.startPeriod period now).periodStart now = false := by
  rintro span rfl
  simp only [startPeriod]
  split
  · exact hasPassed_self (hperiod span rfl) now
  · rename_i hpassed
    exact Bool.eq_false_iff.mpr hpassed

/-- A period that is not over is not started anew. -/
theorem startPeriod_eq_self {period : Option Millis}
    (h : ∀ span ∈ period, hasPassed span r.periodStart now = false) :
    r.startPeriod period now = r := by
  cases period with
  | none => rfl
  | some span => rw [startPeriod, h span rfl, if_neg Bool.false_ne_true]

/-- A repetition that passes leaves a record of its instant. -/
theorem sated_of_deliver (hpolicy : ∀ q ∈ policy, q.Proper)
    (hdecides : r.repeated policy now = (next, .deliver)) : next.Sated policy now := by
  rcases policy with _ | span | ⟨max, period⟩
  · trivial
  · simp only [repeated] at hdecides
    split at hdecides
    · obtain ⟨rfl, -⟩ := Prod.mk.inj hdecides
      rfl
    · cases (Prod.mk.inj hdecides).2
  · obtain ⟨-, hperiod⟩ := hpolicy _ rfl
    have hstarted := r.hasPassed_startPeriod now hperiod
    simp only [repeated] at hdecides
    split at hdecides
    · rename_i hroom
      obtain ⟨rfl, -⟩ := Prod.mk.inj hdecides
      refine ⟨?_, hstarted⟩
      have hmax := max.toNat_lt
      rw [UInt32.lt_iff_toNat_lt] at hroom ⊢
      show 0 < ((r.startPeriod period now).count + 1).toNat
      rw [UInt32.toNat_add, UInt32.toNat_one, Nat.mod_eq_of_lt (by omega)]
      exact Nat.succ_pos _
    · cases (Prod.mk.inj hdecides).2

/-- A repetition at the instant of a publication passes only if the policy lets a state pass
twice. -/
theorem redoubles_of_deliver (hpolicy : ∀ q ∈ policy, q.Proper) (h : r.Sated policy now)
    (hdecides : (r.repeated policy now).2 = .deliver) : ∃ q ∈ policy, q.Redoubles := by
  rcases policy with _ | span | ⟨max, period⟩
  · cases hdecides
  · refine ⟨_, rfl, Millis.ext ?_⟩
    have hspan : 0 ≤ span.val := hpolicy _ rfl
    have hlast : r.lastPublished = some now := h
    simp only [repeated, hlast, hasPassed_some hspan, decide_eq_true_eq] at hdecides
    split at hdecides
    · rename_i hpassed
      rw [Millis.zero_val]
      omega
    · cases hdecides
  · refine ⟨_, rfl, ?_⟩
    obtain ⟨hcount, hperiod⟩ := h
    simp only [repeated, startPeriod_eq_self hperiod] at hdecides
    split at hdecides
    · rename_i hroom
      show (1 : UInt32) < max
      rw [UInt32.lt_iff_toNat_lt] at *
      rw [UInt32.toNat_zero] at hcount
      rw [UInt32.toNat_one]
      omega
    · cases hdecides

/-- A repetition that is withheld at the instant of a publication leaves the record as it is. -/
theorem repeated_of_suppress (h : r.Sated policy now)
    (hdecides : (r.repeated policy now).2 = .suppress) : (r.repeated policy now).1 = r := by
  rcases policy with _ | span | ⟨max, period⟩
  · rfl
  · simp only [repeated] at hdecides ⊢
    split
    · rename_i hpassed
      rw [if_pos hpassed] at hdecides
      cases hdecides
    · rfl
  · simp only [repeated, startPeriod_eq_self h.2] at hdecides ⊢
    split
    · rename_i hroom
      rw [if_pos hroom] at hdecides
      cases hdecides
    · rfl

/-- A repetition at the instant of a publication leaves a record of that instant. -/
theorem sated_repeated (hpolicy : ∀ q ∈ policy, q.Proper) (h : r.Sated policy now) :
    (r.repeated policy now).1.Sated policy now := by
  cases hdecision : (r.repeated policy now).2 with
  | deliver => exact sated_of_deliver hpolicy (Prod.ext rfl hdecision)
  | suppress =>
    rw [repeated_of_suppress h hdecision]
    exact h

theorem sated_tally (h : r.Sated policy now) (decision : Decision) :
    (r.tally decision).Sated policy now := by
  cases decision <;> exact h

end PublicationRecord

end TelemetryBands
