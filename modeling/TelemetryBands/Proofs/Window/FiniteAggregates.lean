import TelemetryBands.Proofs.Decimal.Finiteness
import TelemetryBands.Proofs.Window.Rearrangement

/-!
# Finite aggregates

The numbers of a window are finite one by one. What they come to is finite as well for every
function but the sum and the mean, as long as a window has fewer samples than a 64-bit number
counts; and for these two exactly if the sum is finite.
-/

namespace TelemetryBands

open Decimal

theorem SampleValue.isFinite_of_toFloat? {value : SampleValue} {x : Float}
    (h : value.toFloat? = some x) : isFinite x = true := by
  cases value with
  | number y =>
    have hif : (if isFinite y = true then some y else none) = some x := h
    split at hif
    · rwa [← Option.some.inj hif]
    · cases hif
  | integer n =>
    rw [← Option.some.inj h]
    exact isFinite_ofInt n
  | boolean b => cases h
  | text s => cases h

/-- The number of a value is finite. -/
theorem SampleValue.isFinite_of_numeric {value : SampleValue} {x : Float}
    (h : value.numeric = .ok x) : isFinite x = true := by
  unfold numeric at h
  split at h
  · rename_i y hy
    rw [← Except.ok.inj h]
    exact isFinite_of_toFloat? hy
  · cases h

/-- The numbers of a window are as many as its samples, and finite. -/
theorem WindowSample.numbers_ok {samples : List WindowSample} {xs : List Float}
    (h : numbers samples = .ok xs) :
    xs.length = samples.length ∧ ∀ x ∈ xs, isFinite x = true := by
  have hnumbers := toOption_numbers samples
  rw [h] at hnumbers
  split at hnumbers
  · rename_i hall
    have hxs := Option.some.inj hnumbers
    constructor
    · rw [hxs, List.length_filterMap_eq_countP, List.countP_eq_length.mpr, List.length_map]
      exact List.all_eq_true.mp hall
    · intro x hx
      rw [hxs] at hx
      obtain ⟨s, -, hs⟩ := List.mem_filterMap.mp hx
      exact SampleValue.isFinite_of_toFloat? hs
  · cases hnumbers

namespace Aggregate

/-- A finite number lies between the infinities. -/
theorem lt_infinity {x : Float} (h : isFinite x = true) : x < 1.0 / 0.0 ∧ -1.0 / 0.0 < x := by
  have hnan := isNaN_of_isFinite h
  have hpositive : place (1.0 / 0.0) = toLex (2, toLex (0, 0)) := by rfl
  have hnegative : place (-1.0 / 0.0) = toLex (-2, toLex (0, 0)) := by rfl
  rw [lt_iff_place hnan (by decide +kernel), lt_iff_place (by decide +kernel) hnan, hpositive,
    hnegative, place]
  have hclass : ∀ (a b : Int) (u v : Int ×ₗ Int), a < b → toLex (a, u) < toLex (b, v) :=
    fun a b u v hab => Prod.Lex.toLex_lt_toLex.mpr (.inl hab)
  rcases unpack_cases h with ⟨s, hx⟩ | ⟨s, m, e, hm, hx, -⟩
  · rw [hx]
    exact ⟨hclass _ _ _ _ (by decide), hclass _ _ _ _ (by decide)⟩
  · rw [hx]
    cases s with
    | positive => exact ⟨hclass _ _ _ _ (by decide), hclass _ _ _ _ (by decide)⟩
    | negative => exact ⟨hclass _ _ _ _ (by decide), hclass _ _ _ _ (by decide)⟩

/-- Choosing the better of two numbers again and again ends at the first or at one of the others. -/
theorem foldl_choose {better : Float → Float → Prop} [DecidableRel better] (best : Float)
    (xs : List Float) :
    xs.foldl (fun best x => if better x best then x else best) best ∈ best :: xs := by
  induction xs generalizing best with
  | nil => exact List.mem_cons_self
  | cons x xs ih =>
    rw [List.foldl_cons]
    split
    · exact List.mem_cons_of_mem _ (ih x)
    · rcases List.mem_cons.mp (ih best) with hbest | hmem
      · rw [hbest]
        exact List.mem_cons_self
      · exact List.mem_cons_of_mem _ (List.mem_cons_of_mem _ hmem)

variable {xs : List Float}

/-- The least of finite numbers is one of them. -/
theorem least_mem (hne : xs ≠ []) (h : ∀ x ∈ xs, isFinite x = true) : least xs ∈ xs := by
  cases xs with
  | nil => exact absurd rfl hne
  | cons x xs =>
    have hfirst := (lt_infinity (h x List.mem_cons_self)).1
    rw [least, List.foldl_cons, if_pos hfirst]
    exact foldl_choose x xs

/-- The greatest of finite numbers is one of them. -/
theorem greatest_mem (hne : xs ≠ []) (h : ∀ x ∈ xs, isFinite x = true) : greatest xs ∈ xs := by
  cases xs with
  | nil => exact absurd rfl hne
  | cons x xs =>
    have hfirst := (lt_infinity (h x List.mem_cons_self)).2
    rw [greatest, List.foldl_cons, if_pos hfirst]
    exact foldl_choose x xs

/-- The share of some numbers in a band is finite. -/
theorem isFinite_percentIn (r : Rule) (hne : xs ≠ []) (hlt : xs.length < 2 ^ 64) :
    isFinite (percentIn r xs) = true := by
  have hle := List.countP_le_length (p := r.contains) (l := xs)
  have hpos := List.length_pos_iff.mpr hne
  exact isFinite_percentage (by omega) hpos hlt

/-- The mean of some numbers is finite exactly if their sum is. -/
theorem isFinite_mean (hne : xs ≠ []) (hlt : xs.length < 2 ^ 64) :
    isFinite (mean xs) = isFinite (sum xs) := by
  cases hsum : isFinite (sum xs) with
  | false => exact isFinite_div_of_not_isFinite hsum
  | true => exact isFinite_div_ofNat hsum (List.length_pos_iff.mpr hne) hlt

/-- A rule that adds up. -/
def Adds (r : Rule) : Prop :=
  r.aggregation = .sum ∨ r.aggregation = .avg

instance (r : Rule) : Decidable (Adds r) :=
  inferInstanceAs (Decidable (_ ∨ _))

theorem ne_nil_of_ofSamples {r : Rule} {samples : List WindowSample} {aggregate : Aggregate}
    (h : ofSamples r samples = .ok aggregate) : samples ≠ [] := by
  rintro rfl
  cases h

/-- What the reported number of a window is: its last value, its count, or what a function makes of
its numbers. -/
theorem reported_cases {r : Rule} {samples : List WindowSample} {aggregate : Aggregate}
    (h : ofSamples r samples = .ok aggregate) :
    (r.aggregation = .last ∧ ∃ s : WindowSample, s.value.numeric = .ok aggregate.reported) ∨
      (r.aggregation = .count ∧ aggregate.reported = Float.ofNat samples.length) ∨
      ∃ xs, WindowSample.numbers samples = .ok xs ∧
        ((r.aggregation = .avg ∧ aggregate.reported = mean xs) ∨
          (r.aggregation = .sum ∧ aggregate.reported = sum xs) ∨
          (r.aggregation = .min ∧ aggregate.reported = least xs) ∨
          (r.aggregation = .max ∧ aggregate.reported = greatest xs) ∨
          ∃ threshold, r.aggregation = .matching threshold ∧
            aggregate.reported = percentIn r xs) := by
  have hmap : ∀ {α : Type} {e : Except Failure α} {f : α → Aggregate},
      e.map f = .ok aggregate → ∃ a, e = .ok a ∧ aggregate = f a := by
    intro α e f he
    cases e with
    | error failure => cases he
    | ok a => exact ⟨a, rfl, (Except.ok.inj he).symm⟩
  unfold ofSamples at h
  split at h
  · cases h
  · rename_i latest hlatest
    split at h <;> rename_i haggregation
    · obtain ⟨x, hx, rfl⟩ := hmap h
      exact .inl ⟨haggregation, latest, hx⟩
    · obtain rfl := (Except.ok.inj h).symm
      exact .inr (.inl ⟨haggregation, rfl⟩)
    all_goals
      obtain ⟨xs, hxs, rfl⟩ := hmap h
      refine .inr (.inr ⟨xs, hxs, ?_⟩)
      simp [haggregation, reported]

/-- What a window comes to is finite, unless its rule adds up and the sum is not finite. -/
theorem isFinite_reported {r : Rule} {samples : List WindowSample} {aggregate : Aggregate}
    (h : ofSamples r samples = .ok aggregate) (hlt : samples.length < 2 ^ 64) :
    isFinite aggregate.reported = true ∧ ¬ Adds r ∨
      ∃ xs, WindowSample.numbers samples = .ok xs ∧ Adds r ∧
        isFinite aggregate.reported = isFinite (sum xs) := by
  rcases reported_cases h with ⟨hlast, s, hs⟩ | ⟨hcount, hreported⟩ | ⟨xs, hxs, hcases⟩
  · exact .inl ⟨SampleValue.isFinite_of_numeric hs, by simp [Adds, hlast]⟩
  · rw [hreported]
    exact .inl ⟨isFinite_ofNat hlt, by simp [Adds, hcount]⟩
  · obtain ⟨hlength, hall⟩ := WindowSample.numbers_ok hxs
    have hne : xs ≠ [] := by
      have hpos := List.length_pos_iff.mpr (ne_nil_of_ofSamples h)
      exact List.length_pos_iff.mp (by omega)
    rcases hcases with ⟨havg, hreported⟩ | ⟨hsum, hreported⟩ | ⟨hmin, hreported⟩ |
      ⟨hmax, hreported⟩ | ⟨threshold, hmatching, hreported⟩
    · rw [hreported, isFinite_mean hne (by omega)]
      exact .inr ⟨xs, hxs, .inr havg, rfl⟩
    · rw [hreported]
      exact .inr ⟨xs, hxs, .inl hsum, rfl⟩
    · rw [hreported]
      exact .inl ⟨hall _ (least_mem hne hall), by simp [Adds, hmin]⟩
    · rw [hreported]
      exact .inl ⟨hall _ (greatest_mem hne hall), by simp [Adds, hmax]⟩
    · rw [hreported]
      exact .inl ⟨isFinite_percentIn r hne (by omega), by simp [Adds, hmatching]⟩

end Aggregate

end TelemetryBands
