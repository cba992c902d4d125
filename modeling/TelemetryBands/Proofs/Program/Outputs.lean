import TelemetryBands.Program.Run
import TelemetryBands.Proofs.Json.Numerals
import TelemetryBands.Proofs.Json.Printing
import TelemetryBands.Proofs.Publication.Grouping

/-!
# The outputs of a run

A run writes the same events in one of three forms: each event as a message on a line of its own, or
the grouped messages as an array, compact or in lines. Every form is read back, and they hold the
same values with the same times.
-/

namespace TelemetryBands

/-- A text of lines: each stands before an end of line, and none has one inside. -/
def Text.InLines (text : String) (lines : List String) : Prop :=
  text = String.join (lines.map (· ++ "\n")) ∧ ∀ line ∈ lines, '\n' ∉ line.toList

namespace Message

/-- The text of a message stands on one line. -/
theorem newline_notMem_encode (m : Message) : '\n' ∉ m.encode.toList := fun hmem =>
  absurd (Json.le_of_mem_compact m.legible_toJson _ hmem) (by decide)

theorem legible_documents (messages : List Message) :
    (Json.array (messages.map toJson)).Legible := by
  apply Json.legible_array
  rw [List.forall_mem_map]
  exact fun m _ => m.legible_toJson

end Message

namespace Program.RunOptions

open Message

/-- What a run writes of the topics and the events that it publishes, whatever their form is. -/
def published (o : RunOptions) (i : Inputs) : Except Problem (List Write × List Event) := do
  let r ← o.prepare i
  let (r, events) ← o.replay i r
  let writes ← o.stateWrites r
  return (writes, events)

/-- The form of the messages is the last thing that a run looks at. -/
theorem outcome_eq (o : RunOptions) (i : Inputs) (format : OutputFormat) :
    { o with format := format }.outcome i = (o.published i).map fun published =>
      o.deliver published.1 (messageText format published.2) := by
  change RunOptions.outcome _ i = ({ o with format := format }.published i).map _
  unfold outcome published
  cases { o with format := format }.prepare i with
  | error problem => rfl
  | ok r =>
    change (RunOptions.replay _ i r >>= _) = (RunOptions.replay _ i r >>= _).map _
    cases { o with format := format }.replay i r with
    | error problem => rfl
    | ok published =>
      obtain ⟨r, events⟩ := published
      change (RunOptions.stateWrites _ r >>= _) = (RunOptions.stateWrites _ r >>= _).map _
      cases { o with format := format }.stateWrites r <;> rfl

/-- In lines, each event has its message on a line. -/
theorem exists_lines (events : List Event) :
    ∃ lines, Text.InLines (messageText .lines events) lines ∧
      lines.map Json.parse? = (events.map ofEvent).map fun m => some m.toJson := by
  refine ⟨events.map fun e => (ofEvent e).encode, ⟨?_, ?_⟩, ?_⟩
  · rw [List.map_map]
    rfl
  · rw [List.forall_mem_map]
    exact fun e _ => newline_notMem_encode _
  · rw [List.map_map, List.map_map]
    refine List.map_congr_left fun e _ => ?_
    simp only [Function.comp_apply, encode]
    exact Json.parse?_compact (ofEvent e).legible_toJson

/-- In an array, compact or in lines, the messages of the times stand one after the other. -/
theorem exists_array (events : List Event) {format : OutputFormat} (hformat : format ≠ .lines) :
    ∃ text, messageText format events = text ++ "\n" ∧
      Json.parse? text = some (.array ((grouped events).map toJson)) := by
  cases format with
  | lines => exact absurd rfl hformat
  | array => exact ⟨_, by rw [messageText], Json.parse?_compact (legible_documents _)⟩
  | pretty => exact ⟨_, by rw [messageText], Json.parse?_pretty (legible_documents _)⟩

end Program.RunOptions

end TelemetryBands
