import TelemetryBands.Proofs.Json.Reading
import TelemetryBands.Proofs.Json.Records
import TelemetryBands.Settings

/-!
# Settings are read back

The text that is written of settings is read as these settings, if nothing is wrong with them, and
is refused for what is wrong with them otherwise. The watermark policy is read from a subtree that
must have a value as a whole, so this is shown of everything that is written there.
-/

namespace TelemetryBands

open Json

namespace Json

/-- An instant has a value, however deep it stands. -/
theorem isSound_toJson (room : Nat) (t : Millis) : t.toJson.isSound room = true := by
  have hlow := t.first_le
  have hhigh := t.le_last
  have hint : (Decimal.Numeral.ofInt t.val).int? = some t.val :=
    Decimal.Numeral.int?_ofInt hlow (by omega)
  have hreal : (Decimal.Numeral.ofInt t.val).real?.isSome = true := by
    rw [Decimal.Numeral.real?, hint]
    rfl
  cases room <;> simpa [Millis.toJson, ofInt, isSound] using hreal

end Json

namespace Scope

theorem legible_toJson (s : Scope) : s.toJson.Legible := by
  apply legible_record
  simp [legible_ofOption legible_ofText]

/-- A scope is read back, whatever its texts are. -/
@[simp] theorem ofJson?_toJson (s : Scope) : ofJson? s.toJson = some s := by
  let written : Record :=
    ⟨[("tenant", .ofOption .ofText s.tenant), ("portal", .ofOption .ofText s.portal)]⟩
  have hread : Record.read? [.plain "tenant", .plain "portal"] s.toJson = some written :=
    Record.read?_record (by decide) rfl
  have htenant : written.optional? "tenant" Json.text? = some s.tenant :=
    Record.optional?_ofOption text?_ofText ofText_ne_null rfl
  have hportal : written.optional? "portal" Json.text? = some s.portal :=
    Record.optional?_ofOption text?_ofText ofText_ne_null rfl
  simp only [ofJson?, hread, htenant, hportal, Option.bind_some, Option.map_some]

end Scope

namespace OverflowPolicy

/-- An overflow policy is read back from its name. -/
theorem plainVariant?_ofText_name (policy : OverflowPolicy) :
    (Json.ofText policy.name).plainVariant?.bind ofName? = some policy := by
  cases policy <;> simp [plainVariant?, variant?, ofText, name, ofName?]

end OverflowPolicy

namespace WatermarkPolicy

theorem legible_toJson (policy : WatermarkPolicy) : policy.toJson.Legible := by
  cases policy with
  | manual =>
    apply legible_record
    simp [legible_ofText]
  | eventTime lateness =>
    apply legible_record
    simp [legible_ofText, Millis.legible_toJson]

/-- A watermark policy is read back, the lateness from beside the mode. -/
@[simp] theorem ofJson?_toJson (policy : WatermarkPolicy) :
    ofJson? policy.toJson = some policy := by
  have hsound : policy.toJson.isSound room = true := by
    cases policy with
    | manual => exact isSound_record (by simp [isSound_ofText])
    | eventTime lateness => exact isSound_record (by simp [isSound_ofText, isSound_toJson])
  cases policy with
  | manual =>
    have hopen : ofJson? (toJson .manual) =
        ofMembers? [(Quoted.ofText "mode", .ofText "manual")] := if_pos hsound
    rw [hopen]
    simp [ofMembers?, Record.ofMembers?, Record.addMember, Record.required?, Record.get?,
      Field.isCalled, Field.plain]
  | eventTime lateness =>
    have hopen : ofJson? (toJson (.eventTime lateness)) =
        ofMembers? [(Quoted.ofText "mode", .ofText "eventTime"),
          (Quoted.ofText "allowedLatenessMs", lateness.toJson)] := if_pos hsound
    rw [hopen]
    simp [ofMembers?, eventTimeOfMembers?, Record.ofMembers?, Record.addMember, Record.required?,
      Record.get?, Field.isCalled, Field.plain]

end WatermarkPolicy

namespace TickSettings

theorem legible_toJson (c : TickSettings) : c.toJson.Legible := by
  apply legible_record
  simp [legible_ofWord64, Millis.legible_toJson]

/-- Tick settings are read back. -/
@[simp] theorem ofJson?_toJson (c : TickSettings) : ofJson? c.toJson = some c := by
  let written : Record := ⟨[("tickMs", .ofWord64 c.tick), ("graceMs", c.grace.toJson)]⟩
  have hread : Record.read? [.lax "tickMs", .lax "graceMs"] c.toJson = some written :=
    Record.read?_record (by decide) rfl
  have htick : written.defaulted? "tickMs" word64? standard.tick = some c.tick :=
    word64?_ofWord64 c.tick
  have hgrace : written.defaulted? "graceMs" Millis.ofJson? standard.grace = some c.grace :=
    c.grace.ofJson?_toJson
  simp only [ofJson?, hread, htick, hgrace, Option.bind_some, Option.map_some]

end TickSettings

namespace Settings

theorem legible_toJson (s : Settings) : s.toJson.Legible := by
  apply legible_record
  simp [Scope.legible_toJson, WatermarkPolicy.legible_toJson, TickSettings.legible_toJson,
    legible_ofText, legible_ofWord64]

/-- The fields that are written of settings. -/
def written (s : Settings) : Record :=
  ⟨[("scope", s.scope.toJson),
    ("maxTopics", .ofWord64 s.maxTopics),
    ("maxOpenWindowsPerRule", .ofWord64 s.maxOpenWindows),
    ("subscriberQueueCapacity", .ofWord64 s.queueCapacity),
    ("overflowPolicy", .ofText s.overflow.name),
    ("watermark", s.watermark.toJson),
    ("clock", s.clock.toJson),
    ("faultChannelCapacity", .ofWord64 s.faultCapacity)]⟩

/-- Settings are read back. -/
@[simp] theorem ofJson?_toJson (s : Settings) : ofJson? s.toJson = some s := by
  have hread : Record.read? fields s.toJson = some s.written :=
    Record.read?_record (by decide) rfl
  have hscope : s.written.defaulted? "scope" Scope.ofJson? standard.scope = some s.scope :=
    s.scope.ofJson?_toJson
  have htopics : s.written.defaulted? "maxTopics" word64? standard.maxTopics = some s.maxTopics :=
    word64?_ofWord64 s.maxTopics
  have hwindows : s.written.defaulted? "maxOpenWindowsPerRule" word64? standard.maxOpenWindows =
      some s.maxOpenWindows := word64?_ofWord64 s.maxOpenWindows
  have hqueue : s.written.defaulted? "subscriberQueueCapacity" word64? standard.queueCapacity =
      some s.queueCapacity := word64?_ofWord64 s.queueCapacity
  have hoverflow : s.written.defaulted? "overflowPolicy"
      (fun j => j.plainVariant?.bind OverflowPolicy.ofName?) standard.overflow = some s.overflow :=
    s.overflow.plainVariant?_ofText_name
  have hwatermark : s.written.defaulted? "watermark" WatermarkPolicy.ofJson? standard.watermark =
      some s.watermark := s.watermark.ofJson?_toJson
  have hclock : s.written.defaulted? "clock" TickSettings.ofJson? standard.clock = some s.clock :=
    s.clock.ofJson?_toJson
  have hfaults : s.written.defaulted? "faultChannelCapacity" word64? standard.faultCapacity =
      some s.faultCapacity := word64?_ofWord64 s.faultCapacity
  simp only [ofJson?, hread, hscope, htopics, hwindows, hqueue, hoverflow, hwatermark, hclock,
    hfaults, Option.bind_some, Option.map_some]

/-- The text of settings is read as these settings if nothing is wrong with them; otherwise it is
refused for the first thing that is. -/
theorem settings_round_trip (s : Settings) :
    (s.flaw? = none → parse s.render = .ok s) ∧
      ∀ flaw, s.flaw? = some flaw → parse s.render = .error flaw.failure := by
  have hread : (Json.parse? s.render).bind ofJson? = some s := by
    rw [render, parse?_pretty s.legible_toJson, Option.bind_some, ofJson?_toJson]
  unfold parse
  rw [hread]
  constructor
  · intro hsound
    simp only [hsound]
  · intro flaw hflaw
    simp only [hflaw]

/-- Settings with extreme numbers, and with a name that needs every kind of escape. -/
theorem settings_round_trip_extreme :
    let s : Settings :=
      { scope := ⟨some "\u0000\"\\/\n\u001f\u2028𝄞", none⟩
        maxTopics := 18446744073709551615
        maxOpenWindows := 1
        queueCapacity := 18446744073709551615
        overflow := .dropNewest
        watermark := .eventTime Millis.last
        clock := ⟨18446744073709551615, Millis.first⟩
        faultCapacity := 1 }
    s.flaw? = none ∧ parse s.render = .ok s := by
  intro s
  have hsound : s.flaw? = none := by decide
  exact ⟨hsound, (settings_round_trip s).1 hsound⟩

end Settings

end TelemetryBands
