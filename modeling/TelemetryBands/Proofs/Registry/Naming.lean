import TelemetryBands.Proofs.Delivery.Identifiers
import TelemetryBands.Proofs.Registry.Consistency
import TelemetryBands.Proofs.Text.Ends
import TelemetryBands.Proofs.Topic.Anonymity

/-!
# Whether a shown name leads back to its topic

Events show the device of their topic with every qualifier that is known, and a name with fewer
qualifiers than that is completed from the scope of the session. So the shown name means the
endpoint of the topic again if its parts can be told apart: a qualifier of the scope must be a text
that a component of a name can be, and a tenant must come with a portal. The settings check neither.
Without a portal, the tenant of the scope is read as the portal of the device.
-/

namespace TelemetryBands

namespace Text

variable {cs : List Char} {c separator : Char}

/-- Only blanks are trimmed. -/
theorem count_trim (h : isBlank c = false) (cs : List Char) : (trim cs).count c = cs.count c := by
  have hblank : ∀ l : List Char, (∀ d ∈ l, isBlank d = true) → l.count c = 0 := by
    intro l hl
    refine List.count_eq_zero.mpr fun hmem => ?_
    rw [hl c hmem] at h
    cases h
  have hfront := hblank (cs.takeWhile isBlank) fun _ => List.mem_takeWhile_imp
  have hback := hblank ((cs.dropWhile isBlank).rtakeWhile isBlank) fun _ =>
    List.mem_rtakeWhile_imp
  have hends : trim cs ++ (cs.dropWhile isBlank).rtakeWhile isBlank = cs.dropWhile isBlank :=
    List.rdropWhile_append_rtakeWhile
  conv_rhs => rw [← List.takeWhile_append_dropWhile (p := isBlank) (l := cs), ← hends]
  rw [List.count_append, List.count_append, hfront, hback, Nat.zero_add, Nat.add_zero]

/-- Trimmed pieces, joined, are trimmed. -/
theorem trim_intercalate {pieces : List (List Char)}
    (h : ∀ piece ∈ pieces, piece ≠ [] ∧ trim piece = piece) :
    trim ([separator].intercalate pieces) = [separator].intercalate pieces := by
  induction pieces with
  | nil => rfl
  | cons piece pieces ih =>
    obtain ⟨hne, htrim⟩ := h piece List.mem_cons_self
    cases pieces with
    | nil => simpa using htrim
    | cons next pieces =>
      have hrest := ih fun other hmem => h other (List.mem_cons_of_mem _ hmem)
      have hnext := (h next (List.mem_cons_of_mem _ List.mem_cons_self)).1
      have hne' : [separator].intercalate (next :: pieces) ≠ [] := by
        cases pieces with
        | nil => simpa using hnext
        | cons => simp [List.intercalate_cons_cons]
      rw [List.intercalate_cons_cons]
      exact trim_append_append hne hne' htrim hrest _

theorem length_le_count_intercalate (separator : Char) (pieces : List (List Char)) :
    pieces.length ≤ ([separator].intercalate pieces).count separator + 1 := by
  induction pieces with
  | nil => exact Nat.zero_le _
  | cons piece pieces ih =>
    cases pieces with
    | nil => simp
    | cons next pieces =>
      rw [List.intercalate_cons_cons, List.count_append, List.count_append,
        List.count_singleton_self, List.length_cons]
      omega

theorem length_splitAtChar (separator : Char) (cs : List Char) :
    (splitAtChar separator cs).length = cs.count separator + 1 := by
  induction cs with
  | nil => rfl
  | cons c cs ih =>
    rw [splitAtChar]
    split
    · rename_i heq
      rw [List.length_cons, ih, heq, List.count_cons_self]
    · rename_i hne
      rw [List.count_cons_of_ne hne, ← ih]
      split
      · rename_i hnil
        rw [hnil] at ih
        cases ih
      · rename_i hpieces
        rw [hpieces]
        rfl

theorem not_mem_of_mem_splitAtChar {piece : List Char} (h : piece ∈ splitAtChar separator cs) :
    separator ∉ piece := by
  induction cs generalizing piece with
  | nil =>
    rw [List.mem_singleton.mp h]
    exact List.not_mem_nil
  | cons c cs ih =>
    rw [splitAtChar] at h
    split at h
    · rcases List.mem_cons.mp h with rfl | h
      · exact List.not_mem_nil
      · exact ih h
    · rename_i hne
      split at h
      · rw [List.mem_singleton.mp h, List.mem_singleton]
        exact Ne.symm hne
      · rename_i hpieces
        rw [hpieces] at ih
        rcases List.mem_cons.mp h with rfl | h
        · rw [List.mem_cons, not_or]
          exact ⟨Ne.symm hne, ih List.mem_cons_self⟩
        · exact ih (List.mem_cons_of_mem _ h)

end Text

namespace Endpoint

variable {scope : Scope} {device point : String} {e : Endpoint}

/-- What a component of a device name can be. -/
def IsComponent (s : String) : Prop :=
  s ≠ "" ∧ '.' ∉ s.toList ∧ Text.trimmed s = s

/-- Whether a text can be a component of a device name is decidable. -/
instance (s : String) : Decidable (IsComponent s) :=
  inferInstanceAs (Decidable (_ ∧ _ ∧ _))

theorem isComponent_of_mem {s : String} (h : s ∈ components device) (hne : s ≠ "") :
    IsComponent s := by
  obtain ⟨piece, hpiece, rfl⟩ := List.mem_map.mp h
  refine ⟨hne, ?_, ?_⟩
  · rw [String.toList_ofList, ← List.count_eq_zero, Text.count_trim (by decide), List.count_eq_zero]
    exact Text.not_mem_of_mem_splitAtChar hpiece
  · rw [Text.trimmed, String.toList_ofList, Text.trim_trim]

/-- A name has one more component than points. -/
theorem length_components (device : String) :
    (components device).length = device.toList.count '.' + 1 := by
  rw [components, List.length_map, Text.length_splitAtChar, Text.count_trim (by decide)]

theorem trim_of_isComponent {s : String} (h : IsComponent s) : Text.trim s.toList = s.toList := by
  have htrimmed := congrArg String.toList h.2.2
  rwa [Text.trimmed, String.toList_ofList] at htrimmed

/-- Components joined by points make a name with those components. -/
theorem components_intercalate {parts : List String} (hne : parts ≠ [])
    (h : ∀ s ∈ parts, IsComponent s) : components (".".intercalate parts) = parts := by
  have hsplit : Text.splitAtChar '.' (".".intercalate parts).toList = parts.map String.toList := by
    rw [Text.splitAtChar_eq_splitOn, String.toList_intercalate]
    refine List.splitOn_intercalate '.' (fun piece hpiece => ?_) (by simpa using hne)
    obtain ⟨s, hs, rfl⟩ := List.mem_map.mp hpiece
    exact (h s hs).2.1
  have htrim : Text.trim (".".intercalate parts).toList = (".".intercalate parts).toList := by
    rw [String.toList_intercalate]
    refine Text.trim_intercalate fun piece hpiece => ?_
    obtain ⟨s, hs, rfl⟩ := List.mem_map.mp hpiece
    exact ⟨by simpa using (h s hs).1, trim_of_isComponent (h s hs)⟩
  rw [components, htrim, hsplit, List.map_map]
  conv_rhs => rw [← List.map_id parts]
  refine List.map_congr_left fun s hs => ?_
  rw [Function.comp_apply, trim_of_isComponent (h s hs), String.ofList_toList, id]

/-- What the components of a device name mean in a scope, whatever the name of the endpoint is. -/
inductive Means (scope : Scope) (point : String) : List String → Endpoint → Prop where
  | device (name : String) : Means scope point [name] ⟨scope.tenant, scope.portal, name, point⟩
  | portal (portal name : String) :
    Means scope point [portal, name] ⟨scope.tenant, some portal, name, point⟩
  | tenant (tenant portal name : String) :
    Means scope point [tenant, portal, name] ⟨some tenant, some portal, name, point⟩

/-- The endpoint of two names: the components of the device name, none of them empty, mean it. -/
theorem resolve_eq_ok_iff :
    resolve scope device point = .ok e ↔
      Text.trimmed point ≠ "" ∧ (∀ s ∈ components device, IsComponent s) ∧
        Means scope (Text.trimmed point) (components device) e := by
  have hcomponents : (components device).any String.isEmpty = false ↔
      ∀ s ∈ components device, IsComponent s := by
    simp only [List.any_eq_false, String.isEmpty_iff]
    exact forall₂_congr fun s hs => ⟨isComponent_of_mem hs, And.left⟩
  rw [← hcomponents]
  constructor
  · intro h
    rw [resolve] at h
    split at h
    · cases h
    · rename_i hpoint
      split at h
      · cases h
      · rename_i hparts
        rw [Bool.not_eq_true] at hparts
        refine ⟨fun hempty => hpoint (String.isEmpty_iff.mpr hempty), hparts, ?_⟩
        split at h
        case h_4 => cases h
        all_goals
          rename_i heq
          cases h
          rw [heq]
          constructor
  · rintro ⟨hpoint, hparts, hmeans⟩
    rw [resolve, if_neg fun hempty => hpoint (String.isEmpty_iff.mp hempty), hparts]
    generalize components device = parts at hmeans
    cases hmeans <;> rfl

/-- The parts of the shown name of an endpoint. -/
def parts (e : Endpoint) : List String :=
  e.tenant.toList ++ e.portal.toList ++ [e.device]

/-- The parts of the shown name of an endpoint can be told apart: its qualifiers can be components
of a name, and there is no tenant without a portal. -/
structure Legible (e : Endpoint) : Prop where
  tenant : ∀ tenant ∈ e.tenant, IsComponent tenant ∧ e.portal.isSome
  portal : ∀ portal ∈ e.portal, IsComponent portal

/-- A shown name has at least the components that were joined. -/
theorem length_parts_le (e : Endpoint) :
    e.parts.length ≤ (components e.qualifiedDevice).length := by
  have hcount := Text.length_le_count_intercalate '.' (e.parts.map String.toList)
  rw [List.length_map] at hcount
  rw [length_components, qualifiedDevice, String.toList_intercalate]
  exact hcount

namespace Means

variable {parts : List String}

theorem device_mem (h : Means scope point parts e) : e.device ∈ parts := by
  cases h <;> simp

theorem point_eq (h : Means scope point parts e) : e.point = point := by
  cases h <;> rfl

/-- The parts of a legible name mean the endpoint again. -/
theorem again (h : Means scope point parts e) (hlegible : e.Legible) :
    Means scope point e.parts e := by
  cases h with
  | device name =>
    obtain ⟨_ | tenant, _ | portal⟩ := scope
    · exact .device name
    · exact .portal portal name
    · exact absurd (hlegible.tenant tenant rfl).2 Bool.false_ne_true
    · exact .tenant tenant portal name
  | portal portal name =>
    obtain ⟨_ | tenant, _⟩ := scope
    · exact .portal portal name
    · exact .tenant tenant portal name
  | tenant tenant portal name => exact .tenant tenant portal name

/-- An endpoint is legible if components mean it that are no fewer than the parts of its name. -/
theorem legible (h : Means scope point parts e) (hparts : ∀ s ∈ parts, IsComponent s)
    (hlength : e.parts.length ≤ parts.length) : e.Legible := by
  cases h with
  | device name =>
    obtain ⟨_ | tenant, _ | portal⟩ := scope
    · exact ⟨by simp, by simp⟩
    all_goals simp [Endpoint.parts] at hlength
  | portal portal name =>
    obtain ⟨_ | tenant, _⟩ := scope
    · exact ⟨by simp, by simpa using hparts portal List.mem_cons_self⟩
    · simp [Endpoint.parts] at hlength
  | tenant tenant portal name =>
    exact ⟨by simpa using hparts tenant (by simp), by simpa using hparts portal (by simp)⟩

end Means

/-- The names that are shown for an endpoint mean it exactly if it is legible. -/
theorem resolve_qualifiedDevice_iff (h : resolve scope device point = .ok e) :
    resolve scope e.qualifiedDevice e.point = .ok e ↔ e.Legible := by
  obtain ⟨hpoint, hparts, hmeans⟩ := resolve_eq_ok_iff.mp h
  have hpoint' : Text.trimmed e.point = Text.trimmed point := by
    rw [hmeans.point_eq, Text.trimmed, Text.trimmed, String.toList_ofList, Text.trim_trim]
  rw [resolve_eq_ok_iff, hpoint']
  constructor
  · rintro ⟨-, hshown, hagain⟩
    exact hagain.legible hshown e.length_parts_le
  · intro hlegible
    have hshown : ∀ s ∈ e.parts, IsComponent s := by
      intro s hs
      simp only [Endpoint.parts, List.mem_append, Option.mem_toList, List.mem_singleton] at hs
      rcases hs with (hs | hs) | rfl
      · exact (hlegible.tenant s hs).1
      · exact hlegible.portal s hs
      · exact hparts _ hmeans.device_mem
    have hcomponents : components e.qualifiedDevice = e.parts :=
      components_intercalate (by simp) hshown
    rw [hcomponents]
    exact ⟨hpoint, hshown, hmeans.again hlegible⟩

/-- All names lead back in a scope exactly if the endpoint is legible that takes both its qualifiers
from the scope. -/
theorem forall_resolve_qualifiedDevice_iff (scope : Scope) :
    (∀ device point e, resolve scope device point = .ok e →
      resolve scope e.qualifiedDevice e.point = .ok e) ↔
        (∀ tenant ∈ scope.tenant, IsComponent tenant ∧ scope.portal.isSome) ∧
          ∀ portal ∈ scope.portal, IsComponent portal := by
  constructor
  · intro h
    have hname : resolve scope "d" "p" = .ok ⟨scope.tenant, scope.portal, "d", "p"⟩ := by
      rw [resolve_eq_ok_iff]
      have hcomponents : components "d" = ["d"] := by decide +kernel
      rw [hcomponents]
      exact ⟨by decide +kernel, by decide +kernel, .device "d"⟩
    have hlegible := (resolve_qualifiedDevice_iff hname).mp (h _ _ _ hname)
    exact ⟨hlegible.tenant, hlegible.portal⟩
  · rintro ⟨htenant, hportal⟩ device point e h
    refine (resolve_qualifiedDevice_iff h).mpr ?_
    obtain ⟨-, hparts, hmeans⟩ := resolve_eq_ok_iff.mp h
    generalize components device = parts at hparts hmeans
    cases hmeans with
    | device name => exact ⟨htenant, hportal⟩
    | portal portal name =>
      exact ⟨fun tenant hmem => ⟨(htenant tenant hmem).1, rfl⟩,
        by simpa using hparts portal (by simp)⟩
    | tenant tenant portal name =>
      exact ⟨by simpa using hparts tenant (by simp), by simpa using hparts portal (by simp)⟩

end Endpoint

namespace Registry

variable {r : Registry} {device point : String} {e : Endpoint} {p : Pipeline}

theorem endpointOf_eq_ok_iff :
    r.endpointOf device point = .ok e ↔ Endpoint.resolve r.settings.scope device point = .ok e := by
  rw [endpointOf]
  cases Endpoint.resolve r.settings.scope device point <;> simp [Except.mapError]

/-- A topic is not reached by a sample whose names do not mean its endpoint. -/
theorem mem_topics_ingest (h : r.tables.Consistent) (hp : p ∈ r.topics)
    (hne : r.endpointOf device point ≠ .ok p.endpoint) (s : Sample) :
    p ∈ (r.ingest device point s).1.topics := by
  cases hendpoint : r.endpointOf device point with
  | error failure =>
    simp only [ingest, hendpoint]
    exact hp
  | ok other =>
    obtain ⟨faults, hingest⟩ := ingestAt_eq h other s
    simp only [ingest, hendpoint, hingest]
    rw [hendpoint] at hne
    refine List.mem_map.mpr ⟨p, hp, if_neg ?_⟩
    rintro rfl
    exact hne rfl

/-- Names that mean the endpoint of topics in a scope, and the names that the events of these topics
show. Resolved in the same scope, the shown names mean the endpoint again exactly if it is legible.
If so, a sample or a watermark for the shown names is one for the names themselves, whatever was
asked of the registry before. If not, a sample for the shown names leaves every topic of the
endpoint as it is. -/
theorem shown_names_lead_back_iff_legible (settings : Settings) (permits : Endpoint → Bool)
    (calls : List Call) (h : Endpoint.resolve settings.scope device point = .ok e) :
    let r := ((new settings permits).run calls).1
    (∀ p ∈ r.topics, p.endpoint = e → ∀ call, ∀ event ∈ (p.apply call).2.2.events,
      event.device = e.qualifiedDevice ∧ event.point = e.point) ∧
    (Endpoint.resolve settings.scope e.qualifiedDevice e.point = .ok e ↔ e.Legible) ∧
    (e.Legible → ∀ s w,
      r.ingest e.qualifiedDevice e.point s = r.ingest device point s ∧
        r.advance e.qualifiedDevice e.point w = r.advance device point w) ∧
    (¬ e.Legible → ∀ s, ∀ p ∈ r.topics, p.endpoint = e →
      p ∈ (r.ingest e.qualifiedDevice e.point s).1.topics) := by
  intro r
  have hnew := consistent_new settings permits
  have hconsistent : r.tables.Consistent := consistent_run hnew calls
  have hsettings : r.settings = settings := (steps_run hnew.distinct calls).settings_eq.1
  have hiff := Endpoint.resolve_qualifiedDevice_iff h
  refine ⟨?_, hiff, ?_, ?_⟩
  · rintro p - rfl call event hevent
    exact (Pipeline.signs_of_mem_apply hevent).2
  · intro hlegible s w
    have hagain := hiff.mpr hlegible
    rw [← hsettings, ← endpointOf_eq_ok_iff] at h hagain
    simp only [ingest, advance, h, hagain, and_self]
  · rintro hlegible s p hp rfl
    refine mem_topics_ingest hconsistent hp (fun hagain => hlegible (hiff.mp ?_)) s
    rwa [endpointOf_eq_ok_iff, hsettings] at hagain

/-- Both qualifiers come from the scope, and the shown name has all three components. -/
theorem shown_names_lead_back_iff_legible_qualified :
    let settings := { Settings.standard with scope := ⟨some "acme", some "plant"⟩ }
    let e : Endpoint := ⟨some "acme", some "plant", "boiler", "pressure"⟩
    Endpoint.resolve settings.scope "boiler" " pressure " = .ok e ∧ e.Legible ∧
      Endpoint.resolve settings.scope "acme.plant.boiler" "pressure" = .ok e := by
  intro settings e
  have hname : Endpoint.resolve settings.scope "boiler" " pressure " = .ok e := by decide +kernel
  have hlegible : e.Legible := ⟨by decide +kernel, by decide +kernel⟩
  have hiff := (shown_names_lead_back_iff_legible settings (fun _ => true) [] hname).2.1
  exact ⟨hname, hlegible, hiff.mpr hlegible⟩

/-- Where the scope has a tenant and no portal, a sample for the short name reaches the topic, and
one for the name that the events of the topic show reaches none. -/
theorem tenant_is_read_as_portal :
    let settings := { Settings.standard with scope := ⟨some "acme", none⟩ }
    let rule : Rule := ⟨1, some 0.0, none, .lowerIncluded, 1000, 1000, .count, none⟩
    let spec : TopicSpec := ⟨"boiler", "pressure", some 0, none, ⟨[rule], by decide +kernel⟩, rfl⟩
    let e : Endpoint := ⟨some "acme", none, "boiler", "pressure"⟩
    let r := ((new settings fun _ => true).createFrom "t" spec).1
    let s : Sample := ⟨100, .number 1.0⟩
    Endpoint.resolve settings.scope "boiler" "pressure" = .ok e ∧
      e.qualifiedDevice = "acme.boiler" ∧
      Endpoint.resolve settings.scope "acme.boiler" "pressure" =
        .ok ⟨some "acme", some "acme", "boiler", "pressure"⟩ ∧
      (r.ingest "boiler" "pressure" s).2.map IngestReport.topics = .ok 1 ∧
      (r.ingest "acme.boiler" "pressure" s).2.map IngestReport.topics = .ok 0 := by
  intro settings rule spec e r s
  refine ⟨by decide +kernel, by decide +kernel, by decide +kernel, ?_, ?_⟩
  · decide +kernel
  · decide +kernel

end Registry

end TelemetryBands
