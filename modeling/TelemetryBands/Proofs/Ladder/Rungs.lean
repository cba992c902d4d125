import Mathlib.Data.List.Pairwise
import Mathlib.Order.WithBot
import TelemetryBands.Proofs.Decimal.Comparison
import TelemetryBands.Proofs.Window.Grid

/-!
# The rungs of a ladder

A band reaches from one cut of the numbers to another one, where a cut is the place of a number with
a side of it. A ladder is checked between neighbours only: the band of a rule ends no later than the
next one starts. As each band ends after it starts, the bands of any two rules stand in the order of
their states, so a value lies in at most one band, and a greater value in no lower one.
-/

namespace TelemetryBands

open Decimal (place)

/-- The place of a number, and whether the cut goes below the number, through it or above it. -/
abbrev Cut : Type := (Int ×ₗ Int ×ₗ Int) ×ₗ Int

/-- The cut below a number, through it or above it. -/
def cutAt (x : Float) (side : Int) : WithBot (WithTop Cut) :=
  ((toLex (place x, side) : Cut) : WithTop Cut)

theorem cutAt_lt_cutAt {x y : Float} {s t : Int} :
    cutAt x s < cutAt y t ↔ place x < place y ∨ place x = place y ∧ s < t := by
  rw [cutAt, cutAt, WithBot.coe_lt_coe, WithTop.coe_lt_coe]
  exact Prod.Lex.toLex_lt_toLex

theorem cutAt_le_cutAt {x y : Float} {s t : Int} :
    cutAt x s ≤ cutAt y t ↔ place x < place y ∨ place x = place y ∧ s ≤ t := by
  rw [cutAt, cutAt, WithBot.coe_le_coe, WithTop.coe_le_coe]
  exact Prod.Lex.toLex_le_toLex

namespace Rule

/-- Where a band starts. -/
def lowerCut (r : Rule) : WithBot (WithTop Cut) :=
  match r.lower with
  | none => ⊥
  | some lower => cutAt lower (if r.exclusion.includesLower then -1 else 1)

/-- Where a band ends. -/
def upperCut (r : Rule) : WithBot (WithTop Cut) :=
  match r.upper with
  | none => ⊤
  | some upper => cutAt upper (if r.exclusion.includesUpper then 1 else -1)

/-- The bounds of a rule are defined, and its band ends after it starts. -/
structure WellBounded (r : Rule) : Prop where
  lower_defined : ∀ lower ∈ r.lower, lower.isNaN = false
  upper_defined : ∀ upper ∈ r.upper, upper.isNaN = false
  cuts : r.lowerCut < r.upperCut

variable {r : Rule} {x : Float}

theorem aboveLower_iff (hr : r.WellBounded) (hx : x.isNaN = false) :
    r.aboveLower x = true ↔ r.lowerCut < cutAt x 0 := by
  unfold aboveLower lowerCut
  cases hlower : r.lower with
  | none => exact iff_of_true rfl (WithBot.bot_lt_coe _)
  | some lower =>
    have hdefined := hr.lower_defined lower hlower
    cases r.exclusion.includesLower with
    | true =>
      simp only [if_true, decide_eq_true_eq, Decimal.le_iff_place hdefined hx, cutAt_lt_cutAt,
        Int.reduceNeg, Int.reduceLT, and_true, le_iff_lt_or_eq]
    | false =>
      simp only [Bool.false_eq_true, if_false, decide_eq_true_eq, Decimal.lt_iff_place hdefined hx,
        cutAt_lt_cutAt, Int.reduceLT, and_false, or_false]

theorem belowUpper_iff (hr : r.WellBounded) (hx : x.isNaN = false) :
    r.belowUpper x = true ↔ cutAt x 0 < r.upperCut := by
  unfold belowUpper upperCut
  cases hupper : r.upper with
  | none => exact iff_of_true rfl (WithBot.coe_lt_coe.mpr (WithTop.coe_lt_top _))
  | some upper =>
    have hdefined := hr.upper_defined upper hupper
    cases r.exclusion.includesUpper with
    | true =>
      simp only [if_true, decide_eq_true_eq, Decimal.le_iff_place hx hdefined, cutAt_lt_cutAt,
        Int.reduceLT, and_true, le_iff_lt_or_eq]
    | false =>
      simp only [Bool.false_eq_true, if_false, decide_eq_true_eq, Decimal.lt_iff_place hx hdefined,
        cutAt_lt_cutAt, Int.reduceNeg, Int.reduceLT, and_false, or_false]

/-- A value lies in a band if the cut through it lies between those of the band. -/
theorem contains_iff (hr : r.WellBounded) :
    r.contains x = true ↔
      x.isNaN = false ∧ r.lowerCut < cutAt x 0 ∧ cutAt x 0 < r.upperCut := by
  rw [contains, Bool.and_eq_true, Bool.and_eq_true, Bool.not_eq_true', and_assoc]
  refine and_congr_right fun hx => ?_
  rw [aboveLower_iff hr hx, belowUpper_iff hr hx]

/-- A rule whose bounds are finite and hold a value between them is well bounded. -/
theorem wellBounded_of_boundsFlaw? (h : r.boundsFlaw? = none) : r.WellBounded := by
  unfold boundsFlaw? at h
  split at h
  · cases h
  split at h
  · cases h
  rename_i hfinite
  simp only [Bool.not_eq_true, List.any_eq_false, List.mem_append, Option.mem_toList,
    Bool.not_eq_false'] at hfinite
  have hlower : ∀ lower ∈ r.lower, lower.isNaN = false := fun lower hmem =>
    Decimal.isNaN_of_isFinite (by simpa using hfinite lower (.inl hmem))
  have hupper : ∀ upper ∈ r.upper, upper.isNaN = false := fun upper hmem =>
    Decimal.isNaN_of_isFinite (by simpa using hfinite upper (.inr hmem))
  refine ⟨hlower, hupper, ?_⟩
  unfold lowerCut upperCut
  cases hl : r.lower with
  | none =>
    cases r.upper with
    | none => exact bot_lt_top
    | some upper => exact WithBot.bot_lt_coe _
  | some lower =>
    cases hu : r.upper with
    | none => exact WithBot.coe_lt_coe.mpr (WithTop.coe_lt_top _)
    | some upper =>
      have hdl := hlower lower hl
      have hdu := hupper upper hu
      simp only [hl, hu, ite_eq_right_iff, reduceCtorEq, imp_false, Bool.or_eq_true,
        Bool.and_eq_true, Bool.not_eq_true', not_or, decide_eq_true_eq,
        Decimal.lt_iff_place hdu hdl, Decimal.beq_iff_place hdl hdu, not_lt, not_and,
        Bool.not_eq_false] at h
      rw [cutAt_lt_cutAt]
      rcases h.1.lt_or_eq with hlt | heq
      · exact .inl hlt
      · -- A band between equal bounds holds both of them.
        have hboth : r.exclusion = .none := by simpa using (h.2 heq).1
        rw [hboth]
        exact .inr ⟨heq, by decide⟩

/-- A rule without flaw is well bounded. -/
theorem wellBounded (h : r.flaw? = none) : r.WellBounded := by
  simp only [flaw?, Option.orElse_eq_orElse, Option.orElse_eq_or, Option.or_eq_none_iff] at h
  exact wellBounded_of_boundsFlaw? h.1

/-- A rule stands below another one: its state is less, and its band ends no later than the other
one starts. -/
structure Below (a b : Rule) : Prop where
  state_lt : a.state < b.state
  cuts : a.upperCut ≤ b.lowerCut

theorem Below.trans {a b c : Rule} (hab : a.Below b) (hb : b.WellBounded) (hbc : b.Below c) :
    a.Below c := by
  have hcuts : a.upperCut < c.lowerCut :=
    calc
      a.upperCut ≤ b.lowerCut := hab.cuts
      _ < b.upperCut := hb.cuts
      _ ≤ c.lowerCut := hbc.cuts
  exact ⟨UInt32.lt_trans hab.state_lt hbc.state_lt, hcuts.le⟩

/-- The values of a band have their places before those of a band above it. -/
theorem Below.place_lt {a b : Rule} (hab : a.Below b) (ha : a.WellBounded) (hb : b.WellBounded)
    {x y : Float} (hx : a.contains x = true) (hy : b.contains y = true) : place x < place y := by
  have hcuts : cutAt x 0 < cutAt y 0 :=
    calc
      cutAt x 0 < a.upperCut := ((contains_iff ha).mp hx).2.2
      _ ≤ b.lowerCut := hab.cuts
      _ < cutAt y 0 := ((contains_iff hb).mp hy).2.1
  rcases cutAt_lt_cutAt.mp hcuts with hlt | ⟨-, hside⟩
  · exact hlt
  · exact absurd hside (by decide)

/-- Of two rules that may follow each other the first stands below the second. -/
theorem below_of_stepFlaw? {a b : Rule} (ha : a.WellBounded) (hb : b.WellBounded)
    (h : Ladder.stepFlaw? a b = none) : a.Below b := by
  unfold Ladder.stepFlaw? at h
  split at h
  · cases h
  rename_i hstate
  refine ⟨UInt32.not_le.mp hstate, ?_⟩
  unfold upperCut lowerCut
  split at h
  · rename_i upper lower hupper hlower
    have hdu := ha.upper_defined upper hupper
    have hdl := hb.lower_defined lower hlower
    rw [hupper, hlower]
    split at h
    · cases h
    rename_i hcross
    split at h
    · cases h
    rename_i hshared
    rw [Decimal.lt_iff_place hdl hdu, not_lt] at hcross
    rw [Bool.and_eq_true, Bool.and_eq_true, Decimal.beq_iff_place hdl hdu] at hshared
    refine cutAt_le_cutAt.mpr (hcross.lt_or_eq.imp_right fun heq => ⟨heq, ?_⟩)
    -- Where the bounds meet, at most one of the bands holds them.
    cases hau : a.exclusion.includesUpper with
    | false => cases b.exclusion.includesLower <;> decide
    | true =>
      cases hbl : b.exclusion.includesLower with
      | false => decide
      | true => exact absurd ⟨⟨heq.symm, hau⟩, hbl⟩ hshared
  · cases h

end Rule

namespace Ladder

/-- The rules of a list without flaw between neighbours stand below each other in their order. -/
theorem pairwise_below : ∀ {rules : List Rule}, (∀ r ∈ rules, r.WellBounded) →
    stepsFlaw? rules = none → rules.Pairwise Rule.Below
  | [], _, _ => List.Pairwise.nil
  | [_], _, _ => List.pairwise_singleton _ _
  | previous :: next :: rules, hrules, h => by
    simp only [stepsFlaw?, Option.orElse_eq_orElse, Option.orElse_eq_or,
      Option.or_eq_none_iff] at h
    obtain ⟨hprevious, hrest⟩ := List.forall_mem_cons.mp hrules
    obtain ⟨hnext, -⟩ := List.forall_mem_cons.mp hrest
    have htail := pairwise_below hrest h.2
    have hbelow := Rule.below_of_stepFlaw? hprevious hnext h.1
    refine List.pairwise_cons.mpr ⟨fun r hr => ?_, htail⟩
    rcases List.mem_cons.mp hr with rfl | hr
    · exact hbelow
    · exact hbelow.trans hnext ((List.pairwise_cons.mp htail).1 r hr)

variable {l : Ladder}

theorem wellBounded_of_mem {r : Rule} (h : r ∈ l.rules) : r.WellBounded :=
  Rule.wellBounded (flaw?_of_mem h)

theorem pairwise_rules (l : Ladder) : l.rules.Pairwise Rule.Below := by
  refine pairwise_below (fun r hr => wellBounded_of_mem hr) ?_
  have hsound := l.sound
  unfold flaw? at hsound
  split at hsound
  · cases hsound
  · simp only [Option.orElse_eq_orElse, Option.orElse_eq_or, Option.or_eq_none_iff] at hsound
    exact hsound.2

/-- Of two rules of a ladder one stands below the other. -/
theorem below_or_below {a b : Rule} (ha : a ∈ l.rules) (hb : b ∈ l.rules) (hne : a ≠ b) :
    a.Below b ∨ b.Below a := by
  have hpairs : l.rules.Pairwise fun a b => a.Below b ∨ b.Below a :=
    (pairwise_rules l).imp fun h => .inl h
  have : Std.Symm fun a b : Rule => a.Below b ∨ b.Below a := ⟨fun _ _ h => h.symm⟩
  exact hpairs.forall ha hb hne

/-- The states tell the rules of a ladder apart. -/
theorem eq_of_state_eq {a b : Rule} (ha : a ∈ l.rules) (hb : b ∈ l.rules)
    (h : a.state = b.state) : a = b := by
  by_contra hne
  rcases below_or_below ha hb hne with hbelow | hbelow
  · exact absurd (h ▸ hbelow.state_lt) (UInt32.lt_irrefl _)
  · exact absurd (h ▸ hbelow.state_lt) (UInt32.lt_irrefl _)

/-- The policy of a state is that of its rule. -/
theorem repeatPolicy?_state {r : Rule} (h : r ∈ l.rules) : l.repeatPolicy? r.state = r.repeats := by
  unfold repeatPolicy?
  cases hfind : l.rules.find? (·.state == r.state) with
  | none => exact absurd (List.find?_eq_none.mp hfind r h) (by simp)
  | some found =>
    have hstate : found.state = r.state := by simpa using List.find?_some hfind
    rw [eq_of_state_eq (List.mem_of_find?_eq_some hfind) h hstate, Option.bind_some]

/-- The rules whose bands hold a value: no two of them. -/
theorem length_filter_contains_le_one (l : Ladder) (x : Float) :
    (l.rules.filter (·.contains x)).length ≤ 1 := by
  have hpairs := (pairwise_rules l).filter (·.contains x)
  have hmem : ∀ r ∈ l.rules.filter (·.contains x), r.WellBounded ∧ r.contains x = true :=
    fun r hr => (List.mem_filter.mp hr).imp wellBounded_of_mem id
  generalize l.rules.filter (·.contains x) = found at hpairs hmem
  match found with
  | [] => exact Nat.zero_le 1
  | [_] => exact Nat.le_refl 1
  | a :: b :: _ =>
    obtain ⟨ha, hax⟩ := hmem a (by simp)
    obtain ⟨hb, hbx⟩ := hmem b (by simp)
    have hbelow : a.Below b := (List.pairwise_cons.mp hpairs).1 b (by simp)
    exact absurd (hbelow.place_lt ha hb hax hbx) (lt_irrefl _)

/-- The rules whose bands hold a value are the one that the value is classified by, if any. -/
theorem filter_contains_eq (l : Ladder) (x : Float) :
    l.rules.filter (·.contains x) = (l.matchingRule? x).toList := by
  have hlength := length_filter_contains_le_one l x
  rw [matchingRule?, ← List.head?_filter]
  generalize l.rules.filter (·.contains x) = found at hlength
  match found with
  | [] => rfl
  | [_] => rfl
  | _ :: _ :: _ => exact absurd hlength (by simp)

theorem classify_state? (l : Ladder) (x : Float) :
    (l.classify x).state? = (l.matchingRule? x).map Rule.state := by
  unfold classify
  cases l.matchingRule? x with
  | none => rfl
  | some rule => rfl

/-- A value that is classified lies in the band of a rule for its state. -/
theorem exists_contains_of_classify {x : Float} {s : UInt32} (h : l.classify x = .state s) :
    ∃ r ∈ l.rules, r.contains x = true ∧ r.state = s := by
  unfold classify at h
  cases hfind : l.matchingRule? x with
  | none =>
    rw [hfind] at h
    cases h
  | some rule =>
    rw [hfind] at h
    cases h
    have hcontains : rule.contains x = true := by simpa using List.find?_some hfind
    exact ⟨rule, List.mem_of_find?_eq_some hfind, hcontains, rfl⟩

/-- Values that stand in an order are classified in that order. -/
theorem state_le_of_le {x y : Float} {s t : UInt32} (hle : x ≤ y) (hx : l.classify x = .state s)
    (hy : l.classify y = .state t) : s ≤ t := by
  obtain ⟨a, ha, hax, rfl⟩ := exists_contains_of_classify hx
  obtain ⟨b, hb, hby, rfl⟩ := exists_contains_of_classify hy
  obtain ⟨hdx, hdy⟩ := Decimal.isNaN_of_le hle
  by_contra hstate
  have hne : a ≠ b := fun heq => hstate (heq ▸ UInt32.le_refl _)
  rcases below_or_below ha hb hne with hbelow | hbelow
  · exact hstate (UInt32.le_of_lt hbelow.state_lt)
  · have hplace := hbelow.place_lt (wellBounded_of_mem hb) (wellBounded_of_mem ha) hby hax
    exact absurd ((Decimal.le_iff_place hdx hdy).mp hle) (not_le.mpr hplace)

/-- The rules of a ladder make that ladder. -/
theorem ofRules_rules (l : Ladder) : ofRules l.rules = .ok l := by
  unfold ofRules
  split
  · rfl
  · rename_i hflaw
    rw [l.sound] at hflaw
    cases hflaw

theorem rules_of_ofRules {rules : List Rule} (h : ofRules rules = .ok l) : l.rules = rules := by
  unfold ofRules at h
  split at h
  · cases h
    rfl
  · cases h

/-- A list of rules that makes a ladder gives each value at most one state, which is the one that
the value is classified by, and none to an undefined value; and of two values the greater one has
no lesser state. -/
theorem classifies_uniquely_and_in_order {rules : List Rule} (h : ofRules rules = .ok l) :
    l.rules = rules ∧
      (∀ x, (l.allMatches x).length ≤ 1 ∧ l.allMatches x = (l.classify x).state?.toList) ∧
      (∀ x, x.isNaN = true → l.allMatches x = []) ∧
      ∀ x y s t, x ≤ y → l.classify x = .state s → l.classify y = .state t → s ≤ t := by
  refine ⟨rules_of_ofRules h, fun x => ⟨?_, ?_⟩, fun x hx => ?_, fun x y s t => state_le_of_le⟩
  · rw [allMatches, List.length_map]
    exact length_filter_contains_le_one l x
  · rw [allMatches, filter_contains_eq, classify_state?, Option.toList_map]
  · rw [allMatches, List.filter_eq_nil_iff.mpr, List.map_nil]
    intro r _
    rw [Rule.contains, hx]
    exact Bool.false_ne_true

/-- A ladder that is open on both sides and has a band of one point between bands that leave the
point out. -/
theorem classifies_uniquely_and_in_order_point :
    let rules : List Rule :=
      [⟨1, none, some 10.0, .both, 1000, 1000, .last, none⟩,
        ⟨4, some 10.0, some 10.0, .none, 1000, 1000, .last, none⟩,
        ⟨6, some 10.0, some 20.0, .upperIncluded, 1000, 1000, .last, none⟩,
        ⟨7, some 20.0, none, .both, 1000, 1000, .last, none⟩]
    let l : Ladder := ⟨rules, by decide +kernel⟩
    ofRules rules = .ok l ∧ (10.0 : Float) ≤ 20.0 ∧ l.classify 10.0 = .state 4 ∧
      l.classify 20.0 = .state 6 ∧ l.allMatches 20.0 = [6] ∧ (4 : UInt32) ≤ 6 := by
  intro rules l
  have hladder : ofRules rules = .ok l := ofRules_rules l
  obtain ⟨-, hunique, -, horder⟩ := classifies_uniquely_and_in_order hladder
  have hle : (10.0 : Float) ≤ 20.0 := by decide +kernel
  have hten : l.classify 10.0 = .state 4 := by decide +kernel
  have htwenty : l.classify 20.0 = .state 6 := by decide +kernel
  refine ⟨hladder, hle, hten, htwenty, ?_, horder _ _ _ _ hle hten htwenty⟩
  rw [(hunique 20.0).2, htwenty]
  rfl

end Ladder

end TelemetryBands
