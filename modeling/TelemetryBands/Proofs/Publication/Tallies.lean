import TelemetryBands.Proofs.Collections.Totals
import TelemetryBands.Publication.Suppressor

/-!
# Counters of records

Each record of a suppressor counts what was published and what was withheld, in 64 bits. Every
decision is counted in one record, so the counters of all records together show how many decisions
there were, as far as 64 bits can.
-/

namespace TelemetryBands

/-- A total of 64-bit counters shows a number: it is the number if that fits 64 bits, and has lost
only multiples of their range in any case. -/
structure Shows (total n : Nat) : Prop where
  exact_of_lt : n < 18446744073709551616 → total = n
  mod_eq : total % 18446744073709551616 = n % 18446744073709551616

/-- One of the counters counts once more, or not. -/
theorem Shows.step {total total' n : Nat} {before after : UInt64} {counts : Bool}
    (h : Shows total n) (htotal : total' + before.toNat = total + after.toNat)
    (hle : after.toNat ≤ total') (hafter : after = before + if counts then 1 else 0) :
    Shows total' (n + if counts then 1 else 0) := by
  cases counts with
  | false =>
    have hsame : after = before := by simpa using hafter
    rw [hsame] at htotal
    have htotal' : total' = total := by omega
    rw [htotal']
    exact h
  | true =>
    have hnext : after.toNat = (before.toNat + 1) % 18446744073709551616 := by
      rw [hafter, if_pos rfl, UInt64.toNat_add]
      rfl
    have hbefore := before.toNat_lt
    -- The counter does not count more than the total, so it starts anew only if the total does.
    have hpart : after.toNat + before.toNat ≤ total + after.toNat := by
      rw [← htotal]
      exact Nat.add_le_add_right hle before.toNat
    have hmod := h.mod_eq
    constructor
    · intro hn
      have hexact := h.exact_of_lt (by simp only [if_true] at hn; omega)
      simp only [if_true] at hn ⊢
      omega
    · simp only [if_true]
      omega

namespace PublicationRecord

/-- Deciding leaves the counters of a record alone. -/
theorem counters_consider (r : PublicationRecord) (candidate : Candidate)
    (policy : Option RepeatPolicy) (now : Millis) :
    (r.consider candidate policy now).1.delivered = r.delivered ∧
      (r.consider candidate policy now).1.suppressed = r.suppressed := by
  cases candidate with
  | transition => exact ⟨rfl, rfl⟩
  | repetition =>
    rcases policy with _ | span | ⟨max, period⟩
    · exact ⟨rfl, rfl⟩
    · simp only [consider, repeated]
      split <;> exact ⟨rfl, rfl⟩
    · have hperiod : (r.startPeriod period now).delivered = r.delivered ∧
          (r.startPeriod period now).suppressed = r.suppressed := by
        cases period with
        | none => exact ⟨rfl, rfl⟩
        | some span =>
          simp only [startPeriod]
          split <;> exact ⟨rfl, rfl⟩
      simp only [consider, repeated]
      split <;> exact hperiod

end PublicationRecord

namespace Suppressor

/-- The publications that the records count. -/
def totalDelivered (s : Suppressor) : Nat :=
  totalOf (·.delivered.toNat) s.records.values

/-- The windows withheld that the records count. -/
def totalSuppressed (s : Suppressor) : Nat :=
  totalOf (·.suppressed.toNat) s.records.values

/-- The records have counted so many publications and windows withheld. -/
structure Tallied (s : Suppressor) (published withheld : Nat) : Prop where
  delivered : Shows s.totalDelivered published
  suppressed : Shows s.totalSuppressed withheld

theorem tallied_initial : initial.Tallied 0 0 :=
  ⟨⟨fun _ => rfl, rfl⟩, ⟨fun _ => rfl, rfl⟩⟩

/-- A counter of the records after the record of a state was stored, when that counter counts the
decision or not. -/
theorem shows_insert {s : Suppressor} {n : Nat} {state : UInt32} {record : PublicationRecord}
    {counter : PublicationRecord → UInt64} (counts : Bool) (hinitial : counter .initial = 0)
    (h : Shows (totalOf (fun r => (counter r).toNat) s.records.values) n)
    (hcounter : counter record =
      counter ((s.records.find? state).getD .initial) + if counts then 1 else 0) :
    Shows (totalOf (fun r => (counter r).toNat) (s.records.insert state record).values)
      (n + if counts then 1 else 0) := by
  have htotal := s.records.totalOf_insert (fun r => (counter r).toNat) state record
  have hold : ((s.records.find? state).map fun r => (counter r).toNat).getD 0 =
      (counter ((s.records.find? state).getD .initial)).toNat := by
    cases s.records.find? state with
    | none => rw [Option.getD_none, hinitial]; rfl
    | some r => rfl
  rw [hold] at htotal
  refine h.step htotal ?_ hcounter
  have hstored : (s.records.insert state record).find? state = some record := by
    rw [OrderedMap.find?_insert, if_pos rfl]
  exact OrderedMap.le_totalOf (f := fun r => (counter r).toNat) hstored

/-- One more decision. -/
theorem Tallied.consider {s : Suppressor} {published withheld : Nat}
    (h : s.Tallied published withheld) (state : UInt32) (candidate : Candidate)
    (policy : Option RepeatPolicy) (now : Millis) :
    (s.consider state candidate policy now).1.Tallied
      (published + if (s.consider state candidate policy now).2 = .deliver then 1 else 0)
      (withheld + if (s.consider state candidate policy now).2 = .suppress then 1 else 0) := by
  have hcounters := ((s.records.find? state).getD .initial).counters_consider candidate policy now
  unfold Suppressor.consider
  generalize ((s.records.find? state).getD .initial).consider candidate policy now = decided
    at hcounters ⊢
  obtain ⟨record, decision⟩ := decided
  obtain ⟨hdelivered, hsuppressed⟩ := hcounters
  cases decision with
  | deliver =>
    refine ⟨shows_insert true rfl h.delivered ?_,
      shows_insert false rfl h.suppressed ?_⟩
    · rw [← hdelivered]
      rfl
    · rw [← hsuppressed]
      exact (UInt64.add_zero _).symm
  | suppress =>
    refine ⟨shows_insert false rfl h.delivered ?_,
      shows_insert true rfl h.suppressed ?_⟩
    · rw [← hdelivered]
      exact (UInt64.add_zero _).symm
    · rw [← hsuppressed]
      rfl

end Suppressor

end TelemetryBands
