import TelemetryBands.Proofs.Collections.Entries
import TelemetryBands.Proofs.Json.Reading
import TelemetryBands.Proofs.Json.Records
import TelemetryBands.Topic.Snapshot

/-!
# Snapshots are read back

What is written of a topic's band, of its publications and of its watermark is read back as it was,
and the text of a snapshot is read as that snapshot.
-/

namespace TelemetryBands

open Json

namespace Band

theorem legible_toJson (b : Band) : b.toJson.Legible := by
  cases b with
  | unclassified => exact legible_ofText "unclassified"
  | state s =>
    apply legible_record
    intro member hmember
    obtain rfl := List.mem_singleton.mp hmember
    exact legible_ofWord32 s

/-- A band is read back. -/
@[simp] theorem ofJson?_toJson (b : Band) : ofJson? b.toJson = some b := by
  cases b with
  | unclassified => simp [toJson, ofJson?, plainVariant?, variant?, ofText]
  | state s =>
    have hvariant : (toJson (.state s)).variant? = some ("state", some (ofWord32 s)) := by
      simp [toJson, record, variant?]
    have hplain : (toJson (.state s)).plainVariant? = none := by
      rw [plainVariant?, hvariant]
      rfl
    have hvalue : (toJson (.state s)).variantValue? "state" = some (ofWord32 s) := by
      rw [variantValue?, hvariant]
      rfl
    rw [ofJson?, hplain, hvalue]
    simp

end Band

namespace Detector

theorem legible_toJson (d : Detector) : d.toJson.Legible := by
  apply legible_record
  simp [Band.legible_toJson, legible_ofWord64]

/-- A detector is read back. -/
@[simp] theorem ofJson?_toJson (d : Detector) : ofJson? d.toJson = some d := by
  have hread : Record.read? fields d.toJson =
      some ⟨[("currentBand", d.band.toJson), ("transitions", .ofWord64 d.transitions)]⟩ :=
    Record.read?_record (by decide) rfl
  rw [ofJson?, hread]
  simp [Record.required?, Record.get?, List.lookup_cons]

end Detector

namespace PublicationRecord

theorem legible_toJson (r : PublicationRecord) : r.toJson.Legible := by
  apply legible_record
  simp [legible_ofOption Millis.legible_toJson, legible_ofWord32, legible_ofWord64]

/-- The fields that are written of a record of publications. -/
def written (r : PublicationRecord) : Record :=
  ⟨[("lastPublishTime", .ofOption Millis.toJson r.lastPublished),
    ("publishCount", .ofWord32 r.count),
    ("periodStart", .ofOption Millis.toJson r.periodStart),
    ("delivered", .ofWord64 r.delivered),
    ("suppressed", .ofWord64 r.suppressed)]⟩

/-- A record of publications is read back. -/
@[simp] theorem ofJson?_toJson (r : PublicationRecord) : ofJson? r.toJson = some r := by
  have hread : Record.read? fields r.toJson = some r.written :=
    Record.read?_record (by decide) rfl
  have hlast : r.written.optional? "lastPublishTime" Millis.ofJson? = some r.lastPublished :=
    Record.optional?_ofOption Millis.ofJson?_toJson Millis.toJson_ne_null rfl
  have hcount : r.written.required? "publishCount" word32? = some r.count :=
    word32?_ofWord32 r.count
  have hstart : r.written.optional? "periodStart" Millis.ofJson? = some r.periodStart :=
    Record.optional?_ofOption Millis.ofJson?_toJson Millis.toJson_ne_null rfl
  have hdelivered : r.written.required? "delivered" word64? = some r.delivered :=
    word64?_ofWord64 r.delivered
  have hsuppressed : r.written.required? "suppressed" word64? = some r.suppressed :=
    word64?_ofWord64 r.suppressed
  simp only [ofJson?, hread, hlast, hcount, hstart, hdelivered, hsuppressed, Option.bind_some,
    Option.map_some]

end PublicationRecord

namespace Suppressor

theorem legible_toJson (s : Suppressor) : s.toJson.Legible := by
  apply legible_record
  intro member hmember
  obtain rfl := List.mem_singleton.mp hmember
  apply legible_record
  intro member hmember
  obtain ⟨entry, -, rfl⟩ := List.mem_map.mp hmember
  exact entry.2.legible_toJson

/-- The name of the member of a state denotes that state. -/
theorem stateOfName?_digits (state : UInt32) :
    stateOfName? (Quoted.ofText (String.ofList (Text.digits state.toNat))) = some state := by
  have hchars : (Decimal.Numeral.ofInt state.toNat).chars = Text.digits state.toNat := by
    rw [Decimal.Numeral.chars_ofInt, if_neg (by omega), List.nil_append, Int.natAbs_natCast]
  have hread := (Decimal.Numeral.readable_ofInt state.toNat).ofChars?_chars
  rw [hchars] at hread
  rw [stateOfName?, Quoted.ofText, String.toList_ofList, Quoted.encode_digits, hread,
    Option.bind_some]
  exact word32?_ofWord32 state

/-- The records of publications are read back. -/
theorem recordsOfMembers?_map (entries : List (UInt32 × PublicationRecord)) :
    recordsOfMembers? ((entries.map fun entry =>
        (String.ofList (Text.digits entry.1.toNat), entry.2.toJson)).map fun member =>
      (Quoted.ofText member.1, member.2)) = some entries := by
  induction entries with
  | nil => rfl
  | cons entry entries ih =>
    rw [recordsOfMembers?] at ih ⊢
    rw [List.map_cons, List.map_cons, List.mapM_cons, ih]
    simp [stateOfName?_digits]

/-- A suppressor is read back. -/
@[simp] theorem ofJson?_toJson (s : Suppressor) : ofJson? s.toJson = some s := by
  have hread : Record.read? [.plain "states"] s.toJson =
      some ⟨[("states", .record (s.records.entries.map fun entry =>
        (String.ofList (Text.digits entry.1.toNat), entry.2.toJson)))]⟩ :=
    Record.read?_record (by decide) rfl
  have hrecords : recordsOfJson? (.record (s.records.entries.map fun entry =>
      (String.ofList (Text.digits entry.1.toNat), entry.2.toJson))) = some s.records := by
    rw [record, recordsOfJson?, recordsOfMembers?_map, Option.map_some, OrderedMap.ofList_entries]
  rw [ofJson?, hread, Option.bind_some, Record.required?_eq rfl, hrecords, Option.map_some]

end Suppressor

namespace Snapshot

theorem legible_toJson (s : Snapshot) : s.toJson.Legible := by
  apply legible_record
  simp [Detector.legible_toJson, Suppressor.legible_toJson, legible_ofOption Millis.legible_toJson]

/-- The fields that are written of a snapshot. -/
def written (s : Snapshot) : Record :=
  ⟨[("detector", s.detector.toJson),
    ("suppressor", s.suppressor.toJson),
    ("watermark", .ofOption Millis.toJson s.watermark)]⟩

/-- A snapshot is read back. -/
@[simp] theorem ofJson?_toJson (s : Snapshot) : ofJson? s.toJson = some s := by
  have hread : Record.read? fields s.toJson = some s.written :=
    Record.read?_record (by decide) rfl
  have hdetector : s.written.required? "detector" Detector.ofJson? = some s.detector :=
    s.detector.ofJson?_toJson
  have hsuppressor : s.written.required? "suppressor" Suppressor.ofJson? = some s.suppressor :=
    s.suppressor.ofJson?_toJson
  have hwatermark : s.written.optional? "watermark" Millis.ofJson? = some s.watermark :=
    Record.optional?_ofOption Millis.ofJson?_toJson Millis.toJson_ne_null rfl
  simp only [ofJson?, hread, hdetector, hsuppressor, hwatermark, Option.bind_some, Option.map_some]

/-- The text that keeps a snapshot is read as that snapshot. -/
theorem load_save (s : Snapshot) : load s.save = .ok s := by
  rw [load, save, parse?_compact s.legible_toJson, Option.bind_some, ofJson?_toJson]

end Snapshot

end TelemetryBands
