import Mathlib.Data.List.Sort
import TelemetryBands.Collections.OrderedMap

/-!
# Entries and look-ups of ordered maps

A map can be read as its list of entries or through `find?`. The two readings agree, so a map is
known by its look-ups, and every operation is described by what it does to them.
-/

namespace TelemetryBands.OrderedMap

open Ranked (rank)

variable {κ α β : Type} [Ranked κ]

/-- A list of entries in ascending order answers a look-up exactly with the entry of that key. -/
theorem findIn_eq_some_iff {l : List (κ × α)} (h : l.Pairwise fun a b => rank a.1 < rank b.1)
    {k : κ} {v : α} : findIn k l = some v ↔ (k, v) ∈ l := by
  induction l with
  | nil => simp [findIn]
  | cons head rest ih =>
    obtain ⟨hhead, hrest⟩ := List.pairwise_cons.mp h
    simp only [findIn, List.mem_cons]
    split
    · rename_i hrank
      have hkey : head.1 = k := Ranked.rank_inj hrank
      constructor
      · intro hv
        left
        rw [← hkey, ← Option.some.inj hv]
      · rintro (hv | hv)
        · rw [← hv]
        · have hlt : rank head.1 < rank k := hhead _ hv
          omega
    · rename_i hrank
      rw [ih hrest]
      constructor
      · exact Or.inr
      · rintro (hv | hv)
        · exact absurd (by rw [← hv]) hrank
        · exact hv

/-- A key is found with a value exactly when the two are an entry. -/
theorem find?_eq_some_iff {m : OrderedMap κ α} {k : κ} {v : α} :
    m.find? k = some v ↔ (k, v) ∈ m.entries :=
  findIn_eq_some_iff m.ascending

/-- Maps with the same look-ups are equal. -/
theorem ext_find? {m n : OrderedMap κ α} (h : ∀ k, m.find? k = n.find? k) : m = n := by
  have hirrefl : Std.Irrefl fun a b : κ × α => rank a.1 < rank b.1 := ⟨fun a => by omega⟩
  have hasymm : Std.Asymm fun a b : κ × α => rank a.1 < rank b.1 := ⟨fun a b => by omega⟩
  apply ext
  apply m.ascending.eq_of_mem_iff n.ascending
  rintro ⟨k, v⟩
  rw [← find?_eq_some_iff, ← find?_eq_some_iff, h k]

/-- The values of a map are what its look-ups find. -/
theorem mem_values_iff {m : OrderedMap κ α} {v : α} : v ∈ m.values ↔ ∃ k, m.find? k = some v := by
  simp only [values, List.mem_map, find?_eq_some_iff]
  constructor
  · rintro ⟨⟨k, v'⟩, hmem, rfl⟩
    exact ⟨k, hmem⟩
  · rintro ⟨k, hmem⟩
    exact ⟨(k, v), hmem, rfl⟩

theorem contains_eq_true_iff {m : OrderedMap κ α} {k : κ} :
    m.contains k = true ↔ ∃ v, m.find? k = some v :=
  Option.isSome_iff_exists

/-- Keeping some of the keys keeps their values. -/
theorem find?_filterKeys {m : OrderedMap κ α} {p : κ → Bool} {k : κ} :
    (m.filterKeys p).find? k = if p k then m.find? k else none := by
  apply Option.ext
  intro v
  rw [find?_eq_some_iff, mem_filterKeys, ← find?_eq_some_iff]
  by_cases hp : p k = true <;> simp [hp]

@[simp] theorem filterKeys_empty (p : κ → Bool) :
    filterKeys (empty : OrderedMap κ α) p = empty := rfl

/-- Keeping keys twice keeps those that both tests let pass. -/
theorem filterKeys_filterKeys (m : OrderedMap κ α) (p q : κ → Bool) :
    (m.filterKeys p).filterKeys q = m.filterKeys fun k => q k && p k := by
  apply ext
  simp [filterKeys, List.filter_filter]

/-- The values of a range of keys, cut in two at a lower bound. -/
theorem values_filterKeys_append (m : OrderedMap κ α) {p q : κ → Bool}
    (hle : ∀ k, q k = true → p k = true)
    (hcut : ∀ j k, q j = true → q k = false → rank j < rank k) :
    (m.filterKeys p).values =
      (m.filterKeys q).values ++ (m.filterKeys fun k => p k && !q k).values := by
  have hirrefl : Std.Irrefl fun a b : κ × α => rank a.1 < rank b.1 := ⟨fun a => by omega⟩
  have hasymm : Std.Asymm fun a b : κ × α => rank a.1 < rank b.1 := ⟨fun a b => by omega⟩
  have hsorted : ((m.filterKeys q).entries ++ (m.filterKeys fun k => p k && !q k).entries).Pairwise
      fun a b => rank a.1 < rank b.1 := by
    refine List.pairwise_append.mpr ⟨(m.filterKeys q).ascending, ascending _, ?_⟩
    intro a ha b hb
    have hb' := (mem_filterKeys.mp hb).2
    rw [Bool.and_eq_true, Bool.not_eq_true'] at hb'
    exact hcut a.1 b.1 (mem_filterKeys.mp ha).2 hb'.2
  have hentries : (m.filterKeys p).entries =
      (m.filterKeys q).entries ++ (m.filterKeys fun k => p k && !q k).entries := by
    apply (m.filterKeys p).ascending.eq_of_mem_iff hsorted
    intro entry
    have hentry := hle entry.1
    simp only [List.mem_append, mem_filterKeys, Bool.and_eq_true, Bool.not_eq_true']
    cases hq : q entry.1 with
    | true => simp [hentry hq]
    | false => simp
  rw [values, hentries, List.map_append]
  rfl

/-- The same keys with every value changed by a function. -/
def mapValues (f : α → β) (m : OrderedMap κ α) : OrderedMap κ β :=
  ⟨m.entries.map fun entry => (entry.1, f entry.2), List.pairwise_map.mpr m.ascending⟩

@[simp] theorem mapValues_empty (f : α → β) :
    mapValues f (empty : OrderedMap κ α) = empty := rfl

@[simp] theorem size_mapValues (f : α → β) (m : OrderedMap κ α) :
    (m.mapValues f).size = m.size := by
  simp [mapValues, size]

@[simp] theorem values_mapValues (f : α → β) (m : OrderedMap κ α) :
    (m.mapValues f).values = m.values.map f := by
  simp [mapValues, values]

@[simp] theorem find?_mapValues (f : α → β) (m : OrderedMap κ α) (k : κ) :
    (m.mapValues f).find? k = (m.find? k).map f := by
  simp only [find?, mapValues]
  induction m.entries with
  | nil => rfl
  | cons head rest ih =>
    simp only [List.map_cons, findIn]
    split
    · rfl
    · exact ih

@[simp] theorem contains_mapValues (f : α → β) (m : OrderedMap κ α) (k : κ) :
    (m.mapValues f).contains k = m.contains k := by
  simp [contains]

theorem mapValues_insert [DecidableEq κ] (f : α → β) (m : OrderedMap κ α) (k : κ) (v : α) :
    (m.insert k v).mapValues f = (m.mapValues f).insert k (f v) := by
  apply ext_find?
  intro k'
  simp only [find?_mapValues, find?_insert]
  split <;> rfl

theorem mapValues_filterKeys (f : α → β) (m : OrderedMap κ α) (p : κ → Bool) :
    (m.filterKeys p).mapValues f = (m.mapValues f).filterKeys p := by
  apply ext_find?
  intro k
  simp only [find?_mapValues, find?_filterKeys]
  split <;> rfl

/-- Entries in ascending order, inserted one by one, are found like in the list itself. -/
theorem find?_foldl_insert [DecidableEq κ] {l : List (κ × α)}
    (h : l.Pairwise fun a b => rank a.1 < rank b.1) (m : OrderedMap κ α) (k : κ) :
    (l.foldl (fun m entry => m.insert entry.1 entry.2) m).find? k =
      (findIn k l).or (m.find? k) := by
  induction l generalizing m with
  | nil => rfl
  | cons head rest ih =>
    obtain ⟨hhead, hrest⟩ := List.pairwise_cons.mp h
    rw [List.foldl_cons, ih hrest, find?_insert, findIn]
    by_cases hk : head.1 = k
    · have hnone : findIn k rest = none := by
        apply Option.eq_none_iff_forall_ne_some.mpr
        intro v hv
        have hlt : rank head.1 < rank k := hhead _ ((findIn_eq_some_iff hrest).mp hv)
        rw [hk] at hlt
        omega
      simp [hk, hnone]
    · have hrank : rank head.1 ≠ rank k := fun e => hk (Ranked.rank_inj e)
      simp [hk, hrank]

/-- A map is the map of its entries. -/
theorem ofList_entries [DecidableEq κ] (m : OrderedMap κ α) : ofList m.entries = m := by
  apply ext_find?
  intro k
  rw [ofList, find?_foldl_insert m.ascending, find?_empty, Option.or_none, find?]

end TelemetryBands.OrderedMap
