import TelemetryBands.Proofs.Program.Validation
import TelemetryBands.Proofs.Window.Assignment

/-!
# How dense the windows of a topic may lie

A topic is not created if one of its rules puts an instant into more windows than may be open. The
number of windows is compared with the limit as a 64-bit number with a sign. So the comparison is
the exact one for every limit that has no sign as such a number, and a limit of 2^63 or more, which
the settings allow as well, admits no rule at all.
-/

namespace TelemetryBands

/-- A ladder has a rule. -/
theorem Ladder.exists_first (l : Ladder) : ∃ rule rules, l.rules = rule :: rules := by
  cases hrules : l.rules with
  | cons rule rules => exact ⟨rule, rules, rfl⟩
  | nil =>
    have hsound := l.sound
    rw [hrules] at hsound
    cases hsound

namespace Rule

/-- A rule puts an instant into no more windows than a limit allows, and the limit has no sign as a
64-bit number. -/
def Fits (limit : UInt64) (rule : Rule) : Prop :=
  limit.toNat < 9223372036854775808 ∧
    ⌈(rule.windowSize.val : ℚ) / rule.windowOffset.val⌉ ≤ limit.toNat

/-- An instant can lie in at least one window. -/
theorem windowsPerSample_pos {rule : Rule} (h : rule.flaw? = none) : 0 < rule.windowsPerSample := by
  obtain ⟨hsize, hoffset⟩ := window_pos h
  simp only [Millis.lt_def, Millis.zero_val] at hsize hoffset
  have hpos : (0 : ℚ) < (rule.windowSize.val : ℚ) / rule.windowOffset.val :=
    div_pos (by exact_mod_cast hsize) (by exact_mod_cast hoffset)
  rw [windowsPerSample_eq h]
  exact Int.ceil_pos.mpr hpos

end Rule

namespace Registry

variable {r : Registry} {name : String} {spec : TopicSpec} {endpoint : Endpoint} {limit : UInt64}
  {rule : Rule}

/-- As a 64-bit number with a sign, a limit is itself or negative. -/
theorem signedLimit_cases (limit : UInt64) :
    (limit.toNat < 9223372036854775808 ∧ signedLimit limit = limit.toNat) ∨
      (9223372036854775808 ≤ limit.toNat ∧ signedLimit limit < 0) := by
  have hlimit := limit.toNat_lt
  unfold signedLimit Text.limit64
  rcases Nat.lt_or_ge limit.toNat 9223372036854775808 with hlow | hhigh
  · exact Or.inl ⟨hlow, Int.bmod_eq_of_le (by omega) (by omega)⟩
  · refine Or.inr ⟨hhigh, ?_⟩
    rw [Int.bmod_def]
    omega

/-- The check lets a rule pass exactly if it fits. -/
theorem windowsPerSample_le_signedLimit_iff (h : rule.flaw? = none) :
    rule.windowsPerSample ≤ signedLimit limit ↔ rule.Fits limit := by
  have hpos := Rule.windowsPerSample_pos h
  rw [Rule.Fits, ← Rule.windowsPerSample_eq h]
  rcases signedLimit_cases limit with ⟨hlow, hsigned⟩ | ⟨hhigh, hsigned⟩
  · rw [hsigned]
    exact ⟨fun hle => ⟨hlow, hle⟩, And.right⟩
  · constructor
    · intro hle
      omega
    · rintro ⟨hlow, -⟩
      omega

/-- Nothing but the density of its windows can keep a topic from being created. -/
structure Admits (r : Registry) (name : String) (spec : TopicSpec) (endpoint : Endpoint) :
    Prop where
  named : nameRefusal? name = none
  resolved : Endpoint.resolve r.settings.scope spec.device spec.point = .ok endpoint
  permitted : r.permits endpoint = true
  room : r.tableRefusal? name = none

namespace Admits

/-- The topic is created if no rule is too dense. -/
theorem createFrom_of_none (h : r.Admits name spec endpoint)
    (hdense : r.densityRefusal? spec.ladder = none) :
    r.createFrom name spec = (r.install name endpoint spec, .ok ⟨name, endpoint⟩) := by
  simp only [createFrom, examine, h.named, hdense, h.resolved, h.permitted, h.room,
    Option.orElse_eq_orElse, Option.orElse_none, Bool.not_true, Bool.false_eq_true, if_false]

/-- The topic is refused if a rule is too dense, and nothing changes. -/
theorem createFrom_of_some (h : r.Admits name spec endpoint) {refusal : Refusal}
    (hdense : r.densityRefusal? spec.ladder = some refusal) :
    r.createFrom name spec = (r, .error refusal.failure) := by
  simp only [createFrom, examine, h.named, hdense, Option.orElse_eq_orElse, Option.orElse_none]

end Admits

/-- No rule is refused exactly if all fit. -/
theorem densityRefusal?_eq_none_iff (r : Registry) (ladder : Ladder) :
    r.densityRefusal? ladder = none ↔
      ∀ rule ∈ ladder.rules, rule.Fits r.settings.maxOpenWindows := by
  rw [densityRefusal?, Option.map_eq_none_iff, List.find?_eq_none]
  refine forall₂_congr fun rule hmem => ?_
  rw [decide_eq_true_eq, Int.not_lt,
    windowsPerSample_le_signedLimit_iff (Ladder.flaw?_of_mem hmem)]

/-- The first rule that does not fit is refused. -/
theorem densityRefusal?_of_split {ladder : Ladder} {before after : List Rule}
    (hrules : ladder.rules = before ++ rule :: after)
    (hbefore : ∀ earlier ∈ before, earlier.Fits r.settings.maxOpenWindows)
    (hrule : ¬ rule.Fits r.settings.maxOpenWindows) :
    r.densityRefusal? ladder =
      some (.dense rule.state rule.windowsPerSample r.settings.maxOpenWindows) := by
  have hflaw : ∀ other ∈ before ++ rule :: after, other.flaw? = none :=
    fun other hmem => Ladder.flaw?_of_mem (hrules ▸ hmem)
  have hfirst : ladder.rules.find? (fun rule =>
      decide (signedLimit r.settings.maxOpenWindows < rule.windowsPerSample)) = some rule := by
    rw [hrules, List.find?_append, List.find?_eq_none.mpr, Option.none_or, List.find?_cons_of_pos]
    · have hmem : rule ∈ before ++ rule :: after := List.mem_append_right _ List.mem_cons_self
      rw [decide_eq_true_eq, ← Int.not_le, windowsPerSample_le_signedLimit_iff (hflaw rule hmem)]
      exact hrule
    · intro earlier hmem
      rw [decide_eq_true_eq, Int.not_lt,
        windowsPerSample_le_signedLimit_iff (hflaw earlier (List.mem_append_left _ hmem))]
      exact hbefore earlier hmem
  rw [densityRefusal?, hfirst, Option.map_some]

namespace Admits

/-- The topic is created exactly if every rule fits. -/
theorem createFrom_eq_ok_iff (h : r.Admits name spec endpoint) :
    r.createFrom name spec = (r.install name endpoint spec, .ok ⟨name, endpoint⟩) ↔
      ∀ rule ∈ spec.ladder.rules, rule.Fits r.settings.maxOpenWindows := by
  rw [← densityRefusal?_eq_none_iff]
  cases hdense : r.densityRefusal? spec.ladder with
  | none => exact iff_of_true (h.createFrom_of_none hdense) rfl
  | some refusal =>
    rw [h.createFrom_of_some hdense]
    simp

/-- The answer to a topic with a rule that does not fit names the first such rule. -/
theorem createFrom_of_split (h : r.Admits name spec endpoint) {before after : List Rule}
    (hrules : spec.ladder.rules = before ++ rule :: after)
    (hbefore : ∀ earlier ∈ before, earlier.Fits r.settings.maxOpenWindows)
    (hrule : ¬ rule.Fits r.settings.maxOpenWindows) :
    let windows := ⌈(rule.windowSize.val : ℚ) / rule.windowOffset.val⌉
    r.createFrom name spec = (r, .error ⟨.resource,
      s!"rule for state {rule.state} puts each sample in {windows} windows, "
        ++ s!"more than the {r.settings.maxOpenWindows} allowed open"⟩) := by
  intro windows
  have hmem : rule ∈ spec.ladder.rules := hrules ▸ List.mem_append_right _ List.mem_cons_self
  have hwindows : rule.windowsPerSample = windows :=
    Rule.windowsPerSample_eq (Ladder.flaw?_of_mem hmem)
  rw [h.createFrom_of_some (densityRefusal?_of_split hrules hbefore hrule), hwindows,
    Refusal.failure]

/-- A change of the limit keeps everything else. -/
theorem withLimit (h : r.Admits name spec endpoint) (limit : UInt64) :
    Admits { r with settings := { r.settings with maxOpenWindows := limit } } name spec
      endpoint :=
  ⟨h.named, h.resolved, h.permitted, h.room⟩

end Admits

/-- The check of the density, on a topic that nothing else keeps from being created. The topic is
created exactly if the limit is below 2^63 and every rule puts an instant into no more windows than
it allows, the quotient of their length and distance rounded up. Otherwise nothing changes, and the
answer is a failure of resources that names the first rule of which this does not hold; a limit of
2^63 or more is answered so whatever the rules are. A higher limit below 2^63 admits every topic
that a lower one admits. -/
theorem density_is_checked_with_a_sign (h : r.Admits name spec endpoint) :
    let limit := r.settings.maxOpenWindows
    let admitted := fun r : Registry =>
      r.createFrom name spec = (r.install name endpoint spec, .ok ⟨name, endpoint⟩)
    (admitted r ↔ ∀ rule ∈ spec.ladder.rules, rule.Fits limit) ∧
    (∀ before rule after, spec.ladder.rules = before ++ rule :: after →
      (∀ earlier ∈ before, earlier.Fits limit) → ¬ rule.Fits limit →
      let windows := ⌈(rule.windowSize.val : ℚ) / rule.windowOffset.val⌉
      r.createFrom name spec = (r, .error ⟨.resource,
        s!"rule for state {rule.state} puts each sample in {windows} windows, "
          ++ s!"more than the {limit} allowed open"⟩)) ∧
    (9223372036854775808 ≤ limit.toNat → ∃ failure, failure.kind = .resource ∧
      r.createFrom name spec = (r, .error failure)) ∧
    ∀ higher, limit ≤ higher → higher.toNat < 9223372036854775808 → admitted r →
      admitted { r with settings := { r.settings with maxOpenWindows := higher } } := by
  intro limit admitted
  refine ⟨h.createFrom_eq_ok_iff, fun before rule after => h.createFrom_of_split, ?_, ?_⟩
  · intro hhigh
    obtain ⟨rule, rules, hrules⟩ := Ladder.exists_first spec.ladder
    have hrule : ¬ rule.Fits limit := fun hfits => absurd hfits.1 (Nat.not_lt.mpr hhigh)
    have hsplit : spec.ladder.rules = [] ++ rule :: rules := hrules
    exact ⟨_, rfl, h.createFrom_of_split hsplit (List.forall_mem_nil _) hrule⟩
  · intro higher hle hbound hadmitted
    refine (h.withLimit higher).createFrom_eq_ok_iff.mpr fun rule hmem => ⟨hbound, ?_⟩
    have hfits := (h.createFrom_eq_ok_iff.mp hadmitted rule hmem).2
    have hlimit : limit.toNat ≤ higher.toNat := hle
    exact hfits.trans (Int.ofNat_le.mpr hlimit)

/-- A rule that puts an instant into one window. -/
def thin : Rule :=
  ⟨1, some 0.0, some 10.0, .lowerIncluded, 1000, 1000, .count, none⟩

/-- A rule that puts an instant into up to four windows. -/
def dense : Rule :=
  ⟨2, some 10.0, none, .lowerIncluded, 3500, 1000, .count, none⟩

/-- A topic with both rules. -/
def thinAndDense : TopicSpec :=
  ⟨"boiler", "pressure", some 0, none, ⟨[thin, dense], by decide +kernel⟩, rfl⟩

theorem windows_thin : ⌈(thin.windowSize.val : ℚ) / thin.windowOffset.val⌉ = 1 := by
  rw [← Rule.windowsPerSample_eq (by decide +kernel)]
  decide

theorem windows_dense : ⌈(dense.windowSize.val : ℚ) / dense.windowOffset.val⌉ = 4 := by
  rw [← Rule.windowsPerSample_eq (by decide +kernel)]
  decide

theorem admits_thinAndDense : (Registry.new .standard fun _ => true).Admits "t" thinAndDense
    ⟨none, none, "boiler", "pressure"⟩ where
  named := by decide +kernel
  resolved := by decide +kernel
  permitted := rfl
  room := by decide +kernel

/-- Where three windows may be open, the second rule is refused. -/
theorem density_is_checked_with_a_sign_second :
    let r := Registry.new { Settings.standard with maxOpenWindows := 3 } fun _ => true
    r.Admits "t" thinAndDense ⟨none, none, "boiler", "pressure"⟩ ∧
      thinAndDense.ladder.rules = [thin] ++ dense :: [] ∧
      (∀ earlier ∈ [thin], earlier.Fits 3) ∧ ¬ dense.Fits 3 ∧
      (r.createFrom "t" thinAndDense).2 = .error ⟨.resource,
        "rule for state 2 puts each sample in 4 windows, more than the 3 allowed open"⟩ := by
  intro r
  have hadmits : r.Admits "t" thinAndDense ⟨none, none, "boiler", "pressure"⟩ :=
    admits_thinAndDense.withLimit 3
  have hthin : ∀ earlier ∈ [thin], earlier.Fits 3 := by
    intro earlier hmem
    rw [List.mem_singleton.mp hmem, Rule.Fits, windows_thin]
    decide
  have hdense : ¬ dense.Fits 3 := by
    rw [Rule.Fits, windows_dense]
    decide
  have hrefused := (density_is_checked_with_a_sign hadmits).2.1 [thin] dense [] rfl hthin hdense
  rw [windows_dense] at hrefused
  refine ⟨hadmits, rfl, hthin, hdense, (congrArg Prod.snd hrefused).trans ?_⟩
  decide +kernel

/-- A limit of 2^63 refuses a topic whose rules are all far below it, and which the standard limit
admits. -/
theorem large_limit_admits_no_topic :
    let large := { Settings.standard with maxOpenWindows := 9223372036854775808 }
    let endpoint : Endpoint := ⟨none, none, "boiler", "pressure"⟩
    large.flaw? = none ∧
      (Registry.new large fun _ => true).Admits "t" thinAndDense endpoint ∧
      (∀ rule ∈ thinAndDense.ladder.rules,
        ⌈(rule.windowSize.val : ℚ) / rule.windowOffset.val⌉ ≤ large.maxOpenWindows.toNat) ∧
      ((Registry.new large fun _ => true).createFrom "t" thinAndDense).2 = .error ⟨.resource,
        "rule for state 1 puts each sample in 1 windows, more than the 9223372036854775808 "
          ++ "allowed open"⟩ ∧
      ((Registry.new .standard fun _ => true).createFrom "t" thinAndDense).2 =
        .ok ⟨"t", endpoint⟩ := by
  intro large endpoint
  refine ⟨by decide, admits_thinAndDense.withLimit _, ?_, ?_, ?_⟩
  · intro rule hmem
    rcases List.mem_pair.mp hmem with rfl | rfl
    · rw [windows_thin]
      decide
    · rw [windows_dense]
      decide
  · decide +kernel
  · decide +kernel

end Registry

end TelemetryBands
