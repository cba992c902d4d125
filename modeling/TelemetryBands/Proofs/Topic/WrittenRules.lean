import TelemetryBands.Proofs.Json.Records
import TelemetryBands.Proofs.Ladder.Rungs
import TelemetryBands.Topic.Spec

/-!
# From drafts to rules

A description that is accepted has one rule for each draft of its document, in their order. The rule
has what the draft writes, and for what it leaves out the value that stands for it.
-/

namespace TelemetryBands

namespace RuleDraft

/-- A rule is what a draft writes about states, bands and windows at a place of the document. -/
structure Governs (d : RuleDraft) (index : Nat) (r : Rule) : Prop where
  state : r.state = d.state.getD (UInt32.ofNat index)
  lower : r.lower = d.lower
  upper : r.upper = d.upper
  exclusion : exclusionOf r.state d.exclusion = .ok r.exclusion
  windowSize : durationOr Rule.defaultWindow d.windowSize = .ok r.windowSize
  windowOffset : durationOr r.windowSize d.windowOffset = .ok r.windowOffset
  aggregation : aggregationOf d.aggregation = .ok r.aggregation

theorem exists_of_bind {ε α β : Type} {x : Except ε α} {f : α → Except ε β} {b : β}
    (h : (x >>= f) = .ok b) : ∃ a, x = .ok a ∧ f a = .ok b := by
  cases x with
  | error e => cases h
  | ok a => exact ⟨a, rfl, h⟩

/-- The rule that is made of a draft is what the draft writes. -/
theorem governs_of_rule {d : RuleDraft} {index : Nat} {r : Rule} (h : d.rule index = .ok r) :
    d.Governs index r := by
  unfold rule at h
  obtain ⟨exclusion, hexclusion, h⟩ := exists_of_bind h
  obtain ⟨windowSize, hwindowSize, h⟩ := exists_of_bind h
  obtain ⟨windowOffset, hwindowOffset, h⟩ := exists_of_bind h
  obtain ⟨aggregation, haggregation, h⟩ := exists_of_bind h
  obtain ⟨repeats, -, h⟩ := exists_of_bind h
  obtain rfl := Except.ok.inj h
  exact ⟨rfl, rfl, rfl, hexclusion, hwindowSize, hwindowOffset, haggregation⟩

end RuleDraft

/-- What a list that begins with an item comes to begins with what the item comes to. -/
theorem exists_of_mapM_cons {α β : Type} {f : α → Option β} {a : α} {l : List α} {bs : List β}
    (h : (a :: l).mapM f = some bs) :
    ∃ b rest, f a = some b ∧ l.mapM f = some rest ∧ bs = b :: rest := by
  rw [List.mapM_cons] at h
  obtain ⟨b, hb, h⟩ := Option.bind_eq_some_iff.mp h
  obtain ⟨rest, hrest, h⟩ := Option.bind_eq_some_iff.mp h
  exact ⟨b, rest, hb, hrest, (Option.some.inj h).symm⟩

/-- What items come to stands in the places of the items. -/
theorem getElem?_of_mapM {α β : Type} {f : α → Option β} {l : List α} {bs : List β}
    (h : l.mapM f = some bs) {i : Nat} {a : α} (ha : l[i]? = some a) :
    ∃ b, bs[i]? = some b ∧ f a = some b := by
  induction l generalizing bs i with
  | nil => cases ha
  | cons first l ih =>
    obtain ⟨b, rest, hb, hrest, rfl⟩ := exists_of_mapM_cons h
    cases i with
    | zero =>
      obtain rfl := Option.some.inj ha
      exact ⟨b, rfl, hb⟩
    | succ i => exact ih hrest ha

/-- The rules of drafts stand in the places of the drafts. -/
theorem TopicDraft.getElem?_rulesFrom {index : Nat} {drafts : List RuleDraft} {rules : List Rule}
    (h : rulesFrom index drafts = .ok rules) {i : Nat} {d : RuleDraft} (hd : drafts[i]? = some d) :
    ∃ r, rules[i]? = some r ∧ d.rule (index + i) = .ok r := by
  induction drafts generalizing index rules i with
  | nil => cases hd
  | cons first drafts ih =>
    obtain ⟨r, hr, h⟩ := RuleDraft.exists_of_bind h
    obtain ⟨rest, hrest, h⟩ := RuleDraft.exists_of_bind h
    obtain rfl := Except.ok.inj h
    cases i with
    | zero =>
      obtain rfl := Option.some.inj hd
      exact ⟨r, rfl, hr⟩
    | succ i =>
      obtain ⟨r', hr', hrule⟩ := ih hrest hd
      refine ⟨r', hr', ?_⟩
      rwa [Nat.add_right_comm] at hrule

theorem exists_of_mapError {ε ε' α : Type} {f : ε → ε'} {x : Except ε α} {a : α}
    (h : x.mapError f = .ok a) : x = .ok a := by
  cases x with
  | error e => cases h
  | ok a' => exact congrArg Except.ok (Except.ok.inj h)

namespace TopicSpec

/-- The rules of a description are those of the drafts. -/
theorem rulesFrom_of_ofDraft {d : TopicDraft} {spec : TopicSpec} (h : ofDraft d = .ok spec) :
    TopicDraft.rulesFrom 0 d.rules = .ok spec.ladder.rules := by
  unfold ofDraft at h
  split at h
  · cases h
  obtain ⟨start, -, h⟩ := RuleDraft.exists_of_bind h
  obtain ⟨stop, -, h⟩ := RuleDraft.exists_of_bind h
  obtain ⟨rules, hrules, h⟩ := RuleDraft.exists_of_bind h
  obtain ⟨ladder, hladder, h⟩ := RuleDraft.exists_of_bind h
  have hspec : spec.ladder = ladder := by
    unfold make at h
    split at h
    · obtain rfl := Except.ok.inj h
      rfl
    · cases h
  rw [hspec, Ladder.rules_of_ofRules (exists_of_mapError hladder)]
  exact exists_of_mapError hrules

/-- A rule of a description is what the draft in its place writes. -/
theorem exists_governs {d : TopicDraft} {spec : TopicSpec} (h : ofDraft d = .ok spec) {i : Nat}
    {draft : RuleDraft} (hdraft : d.rules[i]? = some draft) :
    ∃ r, spec.ladder.rules[i]? = some r ∧ draft.Governs i r := by
  obtain ⟨r, hr, hrule⟩ := TopicDraft.getElem?_rulesFrom (rulesFrom_of_ofDraft h) hdraft
  rw [Nat.zero_add] at hrule
  exact ⟨r, hr, RuleDraft.governs_of_rule hrule⟩

/-- A text describes what its document describes. -/
theorem parse_eq_ofJson {text : String} {doc : Json} (htext : Json.parse? text = some doc) :
    parse text = ofJson doc := by
  rw [parse, htext]

/-- What is accepted has a draft, which means the description. -/
theorem exists_draft_of_ofJson {doc : Json} {spec : TopicSpec} (h : ofJson doc = .ok spec) :
    ∃ d, TopicDraft.ofJson? doc = some d ∧ ofDraft d = .ok spec := by
  unfold ofJson at h
  cases hdraft : TopicDraft.ofJson? doc with
  | none =>
    rw [hdraft] at h
    cases h
  | some d =>
    rw [hdraft] at h
    exact ⟨d, rfl, h⟩

end TopicSpec

end TelemetryBands
