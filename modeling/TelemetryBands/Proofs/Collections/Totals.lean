import TelemetryBands.Proofs.Collections.Entries

/-!
# Totals

A number summed up over a list, and over the values of an ordered map. Storing a value changes the
total of a map by the new value less the one that it replaces.
-/

namespace TelemetryBands

variable {α β : Type}

/-- The sum of a number over a list. -/
def totalOf (f : α → Nat) (l : List α) : Nat :=
  l.foldr (fun a n => f a + n) 0

@[simp] theorem totalOf_nil (f : α → Nat) : totalOf f [] = 0 := rfl

@[simp] theorem totalOf_cons (f : α → Nat) (a : α) (l : List α) :
    totalOf f (a :: l) = f a + totalOf f l := rfl

theorem totalOf_append (f : α → Nat) (l m : List α) :
    totalOf f (l ++ m) = totalOf f l + totalOf f m := by
  induction l with
  | nil => simp
  | cons a l ih => rw [List.cons_append, totalOf_cons, totalOf_cons, ih, Nat.add_assoc]

theorem totalOf_map (f : β → Nat) (g : α → β) (l : List α) :
    totalOf f (l.map g) = totalOf (fun a => f (g a)) l := by
  induction l with
  | nil => rfl
  | cons a l ih => rw [List.map_cons, totalOf_cons, totalOf_cons, ih]

/-- A list that a test cuts in two has the total of both parts. -/
theorem totalOf_filter_add (f : α → Nat) (p : α → Bool) (l : List α) :
    totalOf f (l.filter p) + totalOf f (l.filter fun a => !p a) = totalOf f l := by
  induction l with
  | nil => rfl
  | cons a l ih =>
    cases hp : p a with
    | true =>
      rw [List.filter_cons_of_pos hp, List.filter_cons_of_neg (by simp [hp]), totalOf_cons,
        totalOf_cons, Nat.add_assoc, ih]
    | false =>
      rw [List.filter_cons_of_neg (by simp [hp]), List.filter_cons_of_pos (by simp [hp]),
        totalOf_cons, totalOf_cons, Nat.add_left_comm, ih]

/-- If every element grows by a number, the total grows by the total of that number. -/
theorem totalOf_map_of_add {f grown : α → Nat} {g : α → α} (h : ∀ a, f (g a) = f a + grown a)
    (l : List α) : totalOf f (l.map g) = totalOf f l + totalOf grown l := by
  induction l with
  | nil => rfl
  | cons a l ih =>
    rw [List.map_cons, totalOf_cons, totalOf_cons, totalOf_cons, h, ih]
    omega

/-- No element counts for more than the total. -/
theorem le_totalOf {f : α → Nat} {a : α} {l : List α} (h : a ∈ l) : f a ≤ totalOf f l := by
  induction l with
  | nil => cases h
  | cons b l ih =>
    rw [totalOf_cons]
    rcases List.mem_cons.mp h with rfl | hmem
    · exact Nat.le_add_right _ _
    · exact (ih hmem).trans (Nat.le_add_left _ _)

/-- What an update of every element leaves alone has the same total. -/
theorem totalOf_map_of_eq {f : α → Nat} {g : α → α} (h : ∀ a, f (g a) = f a) (l : List α) :
    totalOf f (l.map g) = totalOf f l := by
  induction l with
  | nil => rfl
  | cons a l ih => rw [List.map_cons, totalOf_cons, totalOf_cons, h, ih]

/-- Lists put together are as long as all of them. -/
theorem length_flatMap_eq_totalOf (g : α → List β) (l : List α) :
    (l.flatMap g).length = totalOf (fun a => (g a).length) l := by
  induction l with
  | nil => rfl
  | cons a l ih => rw [List.flatMap_cons, List.length_append, totalOf_cons, ih]

namespace OrderedMap

open Ranked (rank)

variable {κ : Type} [Ranked κ]

theorem totalOf_insertIn (f : α → Nat) (k : κ) (v : α) {l : List (κ × α)}
    (h : l.Pairwise fun a b => rank a.1 < rank b.1) :
    totalOf f ((insertIn k v l).map Prod.snd) + ((findIn k l).map f).getD 0 =
      totalOf f (l.map Prod.snd) + f v := by
  induction l with
  | nil => simp [insertIn, findIn]
  | cons head rest ih =>
    obtain ⟨hhead, hrest⟩ := List.pairwise_cons.mp h
    by_cases hbefore : rank k < rank head.1
    · -- All keys lie behind the new one, so that it replaces nothing.
      have hnone : findIn k (head :: rest) = none := by
        refine Option.eq_none_iff_forall_ne_some.mpr fun old hold => ?_
        rcases List.mem_cons.mp ((findIn_eq_some_iff h).mp hold) with rfl | hmem
        · exact Int.lt_irrefl _ hbefore
        · have hlater : rank head.1 < rank k := hhead _ hmem
          omega
      rw [hnone, insertIn, if_pos hbefore]
      simp only [List.map_cons, totalOf_cons, Option.map_none, Option.getD_none]
      omega
    · by_cases hsame : rank head.1 = rank k
      · rw [insertIn, if_neg hbefore, if_pos hsame, findIn, if_pos hsame]
        simp only [List.map_cons, totalOf_cons, Option.map_some, Option.getD_some]
        omega
      · have hnext := ih hrest
        rw [insertIn, if_neg hbefore, if_neg hsame, findIn, if_neg hsame]
        simp only [List.map_cons, totalOf_cons]
        omega

/-- No value counts for more than the total. -/
theorem le_totalOf {f : α → Nat} {m : OrderedMap κ α} {k : κ} {v : α} (h : m.find? k = some v) :
    f v ≤ totalOf f m.values :=
  TelemetryBands.le_totalOf (mem_values_iff.mpr ⟨k, h⟩)

/-- Storing a value adds it to the total in place of the value stored there before. -/
theorem totalOf_insert (f : α → Nat) (m : OrderedMap κ α) (k : κ) (v : α) :
    totalOf f (m.insert k v).values + ((m.find? k).map f).getD 0 = totalOf f m.values + f v :=
  totalOf_insertIn f k v m.ascending

/-- Keys that a test cuts in two hold the total of both parts. -/
theorem totalOf_filterKeys_add (f : α → Nat) (m : OrderedMap κ α) (p : κ → Bool) :
    totalOf f (m.filterKeys p).values + totalOf f (m.filterKeys fun k => !p k).values =
      totalOf f m.values := by
  rw [values, values, values, totalOf_map, totalOf_map, totalOf_map]
  exact totalOf_filter_add _ _ m.entries

/-- Storing a value adds an entry, unless the key has one. -/
theorem size_insert (m : OrderedMap κ α) (k : κ) (v : α) :
    (m.insert k v).size = m.size + if m.contains k then 0 else 1 := by
  have hlength : ∀ l : List α, totalOf (fun _ => 1) l = l.length := by
    intro l
    rw [← List.flatMap_singleton' l, length_flatMap_eq_totalOf, List.flatMap_singleton']
    rfl
  have htotal := totalOf_insert (fun _ => 1) m k v
  rw [hlength, hlength, values, values, List.length_map, List.length_map] at htotal
  rw [size, size, contains]
  cases hfind : m.find? k with
  | none =>
    rw [hfind] at htotal
    exact htotal
  | some old =>
    rw [hfind] at htotal
    exact Nat.succ_inj.mp htotal

end OrderedMap

end TelemetryBands
