import TelemetryBands.Proofs.Feed.Items
import TelemetryBands.Proofs.Json.Reading
import TelemetryBands.Proofs.Json.Records

/-!
# Lines that say an item

A line that holds the document of a sample or of a watermark says this item, whatever its number is
and whatever white space stands around the document.
-/

namespace TelemetryBands

open Json

namespace FeedItem

/-- The documents that are written for an item. A time is an integer or a text that names it, and a
value is any number, truth value or text. -/
inductive WrittenAs : FeedItem → Json → Prop where
  | sample (device point : String) {time value : Json} {written : WrittenTime} {t : Millis}
      {v : SampleValue} (htime : WrittenTime.ofJson? time = some written)
      (ht : written.value = .ok t) (hvalue : SampleValue.ofJson? value = some v) :
    WrittenAs (.sample device point ⟨t, v⟩)
      (.record [("device", .ofText device), ("endpoint", .ofText point), ("timestamp", time),
        ("value", value)])
  | watermark (device point : Option String) {time : Json} {written : WrittenTime} {t : Millis}
      (htime : WrittenTime.ofJson? time = some written) (ht : written.value = .ok t) :
    WrittenAs (.watermark device point t)
      (.record [("watermark", time), ("device", .ofOption .ofText device),
        ("endpoint", .ofOption .ofText point)])

example :
    WrittenAs (.sample "boiler" "pressure" ⟨300, .text "5 bar"⟩)
      (.record [("device", .ofText "boiler"), ("endpoint", .ofText "pressure"),
        ("timestamp", .ofInt 300), ("value", .ofText "5 bar")]) :=
  .sample _ _ rfl rfl rfl

/-- A time that can be read has a value, however deep it stands. -/
theorem isSound_of_writtenTime {time : Json} {written : WrittenTime}
    (h : WrittenTime.ofJson? time = some written) (room : Nat) : time.isSound room = true := by
  unfold WrittenTime.ofJson? Json.int? at h
  cases time with
  | number n =>
    have hint : n.int? ≠ none := by
      intro hnone
      simp [hnone, Json.text?] at h
    obtain ⟨i, hi⟩ := Option.ne_none_iff_exists'.mp hint
    cases room <;> simp [isSound, Decimal.Numeral.real?, hi]
  | string q =>
    have hdecode : q.decode?.isSome = true := by
      cases hq : q.decode? with
      | none => simp [Json.text?, Quoted.text?, hq] at h
      | some cs => rfl
    cases room <;> exact hdecode
  | _ => simp [Json.text?] at h

/-- So has a value. -/
theorem isSound_of_sampleValue {value : Json} {v : SampleValue}
    (h : SampleValue.ofJson? value = some v) (room : Nat) : value.isSound room = true := by
  cases value with
  | bool b => cases room <;> rfl
  | number n =>
    have hreal : n.real?.isSome = true := by
      cases hn : n.real? with
      | none => simp [SampleValue.ofJson?, hn] at h
      | some x => rfl
    cases room <;> exact hreal
  | string q =>
    have hdecode : q.decode?.isSome = true := by
      cases hq : q.decode? with
      | none => simp [SampleValue.ofJson?, Quoted.text?, hq] at h
      | some cs => rfl
    cases room <;> exact hdecode
  | _ => simp [SampleValue.ofJson?] at h

namespace WrittenAs

variable {item : FeedItem} {j : Json}

/-- The document of an item has a value as a whole. -/
theorem isSound (h : item.WrittenAs j) : j.isSound depthLimit = true := by
  have hlimit : depthLimit = 126 + 1 := rfl
  rw [hlimit]
  cases h with
  | sample device point htime ht hvalue =>
    apply isSound_record
    simp [isSound_ofText, isSound_of_writtenTime htime, isSound_of_sampleValue hvalue]
  | watermark device point htime ht =>
    apply isSound_record
    cases device <;> cases point <;>
      simp [isSound_ofText, isSound_of_writtenTime htime, ofOption, Json.isSound]

/-- What the document of an item says is the item. -/
theorem map_ofDraft (h : item.WrittenAs j) : (ofJson? j).map ofDraft = some (.ok item) := by
  cases h with
  | @sample device point time value written t v htime ht hvalue =>
    let members : Record :=
      ⟨[("device", .ofText device), ("endpoint", .ofText point), ("timestamp", time),
        ("value", value)]⟩
    have hread : Record.readObject? sampleFields (.record members.fields) = some members :=
      Record.readObject?_record ["device", "endpoint", "timestamp", "value"] rfl (by decide)
        (by decide)
    have hdevice : members.required? "device" text? = some device := text?_ofText device
    have hpoint : members.required? "endpoint" text? = some point := text?_ofText point
    have htime : members.required? "timestamp" WrittenTime.ofJson? = some written := htime
    have hvalue : members.required? "value" SampleValue.ofJson? = some v := hvalue
    have hsample : sampleOfJson? (.record members.fields) =
        some (.sample device point written v) := by
      simp only [sampleOfJson?, hread, hdevice, hpoint, htime, hvalue, Option.bind_some,
        Option.map_some]
    have hwithout :
        Record.readObject? [.plain "watermark", .plain "device", .plain "endpoint"]
          (.record members.fields) =
            some ⟨[("device", .ofText device), ("endpoint", .ofText point)]⟩ := by
      simp [Record.readObject?, record, members, Record.ofMembers?, Record.addMember, Record.get?,
        Field.isCalled, Field.plain]
    have hnone : watermarkOfJson? (.record members.fields) = none := by
      rw [watermarkOfJson?, hwithout, Option.bind_some]
      rfl
    rw [ofJson?, hnone, hsample]
    simp [ofDraft, ht, Except.map]
  | @watermark device point time written t htime ht =>
    let members : Record :=
      ⟨[("watermark", time), ("device", .ofOption .ofText device),
        ("endpoint", .ofOption .ofText point)]⟩
    have hread : Record.readObject? [.plain "watermark", .plain "device", .plain "endpoint"]
        (.record members.fields) = some members :=
      Record.readObject?_record ["watermark", "device", "endpoint"] rfl (by decide) (by decide)
    have htime : members.required? "watermark" WrittenTime.ofJson? = some written := htime
    have hdevice : members.optional? "device" text? = some device :=
      Record.optional?_ofOption text?_ofText ofText_ne_null rfl
    have hpoint : members.optional? "endpoint" text? = some point :=
      Record.optional?_ofOption text?_ofText ofText_ne_null rfl
    have hwatermark : watermarkOfJson? (.record members.fields) =
        some (.watermark device point written) := by
      simp only [watermarkOfJson?, hread, htime, hdevice, hpoint, Option.bind_some,
        Option.map_some]
    rw [ofJson?, hwatermark]
    simp [ofDraft, ht, Except.map]

/-- No end of the document of an item is blank. -/
theorem trim_compact (h : item.WrittenAs j) : Text.trim j.compact.toList = j.compact.toList := by
  obtain ⟨members, rfl⟩ : ∃ members, j = .record members := by
    cases h <;> exact ⟨_, rfl⟩
  have htext : (Json.record members).compact.toList =
      ['{'] ++ (memberTokens (members.map fun member =>
        (Quoted.ofText member.1, member.2))).flatMap Token.chars ++ ['}'] := by
    simp [compact, record, tokens, Token.chars]
  rw [htext]
  exact Text.trim_append_append (by simp) (by simp) rfl rfl _

end WrittenAs

end FeedItem

namespace Feed

variable {item : FeedItem} {j : Json}

/-- A line with the document of an item says the item. -/
theorem said_of_writtenAs (h : item.WrittenAs j) (hlegible : j.Legible) {left right : List Char}
    (hleft : Text.AllBlank left) (hright : Text.AllBlank right) (number : Nat) :
    said number (bytesOf (left ++ j.compact.toList ++ right)) = some (.ok item) := by
  have htrim : Text.trim (left ++ j.compact.toList ++ right) = j.compact.toList :=
    Text.trim_surrounded hleft hright h.trim_compact
  have hread : (Json.ofChars? j.compact.toList).filter (Json.isSound depthLimit) = some j := by
    have hparse : Json.ofChars? j.compact.toList = some j := parse?_compact hlegible
    rw [hparse, Option.filter_some, if_pos h.isSound]
  have hne : j.compact.toList ≠ [] := by
    intro hnil
    rw [hnil] at hread
    cases hread
  obtain ⟨draft, hdraft, hitem⟩ := Option.map_eq_some_iff.mp h.map_ofDraft
  have hsays : FeedItem.ofText number j.compact.toList = .ok item := by
    rw [FeedItem.ofText, hread, Option.bind_some, hdraft]
    exact hitem
  simp only [said, textOf?_bytesOf, String.toList_ofList, htrim, hsays]
  rw [if_neg (by simpa using hne)]

end Feed

end TelemetryBands
