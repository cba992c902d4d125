/-!
# Finite maps in the order of their keys

A map is the list of its entries in strictly ascending order of their keys, so two maps with the
same entries are equal. Keys are compared through an integer rank that tells them apart.
-/

namespace TelemetryBands

/-- Keys that an integer rank orders and tells apart. -/
class Ranked (κ : Type) where
  rank : κ → Int
  rank_inj : ∀ {a b : κ}, rank a = rank b → a = b

instance : Ranked UInt32 where
  rank k := k.toNat
  rank_inj h := UInt32.toNat_inj.mp (Int.ofNat.inj h)

open Ranked (rank)

/-- A finite map as its entries in strictly ascending order of the keys' ranks. -/
structure OrderedMap (κ α : Type) [Ranked κ] where
  entries : List (κ × α)
  ascending : entries.Pairwise fun a b => rank a.1 < rank b.1

namespace OrderedMap

variable {κ α : Type} [Ranked κ]

@[ext] theorem ext {m n : OrderedMap κ α} (h : m.entries = n.entries) : m = n := by
  cases m; cases n; simp_all

instance [DecidableEq κ] [DecidableEq α] : DecidableEq (OrderedMap κ α) := fun m n =>
  if h : m.entries = n.entries then isTrue (ext h)
  else isFalse fun e => h (congrArg OrderedMap.entries e)

instance [Repr κ] [Repr α] : Repr (OrderedMap κ α) where
  reprPrec m p := reprPrec m.entries p

/-- The map without entries. -/
def empty : OrderedMap κ α :=
  ⟨[], List.Pairwise.nil⟩

instance : Inhabited (OrderedMap κ α) :=
  ⟨empty⟩

/-- The number of entries. -/
def size (m : OrderedMap κ α) : Nat :=
  m.entries.length

/-- The keys, ascending. -/
def keys (m : OrderedMap κ α) : List κ :=
  m.entries.map Prod.fst

/-- The values, in the order of their keys. -/
def values (m : OrderedMap κ α) : List α :=
  m.entries.map Prod.snd

/-- The value stored in a list of entries under a key. -/
def findIn (k : κ) : List (κ × α) → Option α
  | [] => none
  | entry :: rest => if rank entry.1 = rank k then some entry.2 else findIn k rest

/-- The value stored under a key. -/
def find? (m : OrderedMap κ α) (k : κ) : Option α :=
  findIn k m.entries

/-- Whether a key has a value. -/
def contains (m : OrderedMap κ α) (k : κ) : Bool :=
  (m.find? k).isSome

/-- Puts an entry into its place, in front of the entries with greater keys; an entry with the same
key is replaced. -/
def insertIn (k : κ) (v : α) : List (κ × α) → List (κ × α)
  | [] => [(k, v)]
  | entry :: rest =>
    if rank k < rank entry.1 then (k, v) :: entry :: rest
    else if rank entry.1 = rank k then (k, v) :: rest
    else entry :: insertIn k v rest

theorem mem_insertIn {k : κ} {v : α} {entry : κ × α} {l : List (κ × α)}
    (h : entry ∈ insertIn k v l) : entry = (k, v) ∨ entry ∈ l := by
  induction l with
  | nil => simpa [insertIn] using h
  | cons head rest ih =>
    simp only [insertIn] at h
    split at h
    · simpa using h
    · split at h
      · rcases List.mem_cons.mp h with rfl | h
        · exact .inl rfl
        · exact .inr (List.mem_cons_of_mem _ h)
      · rcases List.mem_cons.mp h with rfl | h
        · exact .inr List.mem_cons_self
        · exact (ih h).imp id (List.mem_cons_of_mem _)

theorem pairwise_insertIn {k : κ} {v : α} {l : List (κ × α)}
    (h : l.Pairwise fun a b => rank a.1 < rank b.1) :
    (insertIn k v l).Pairwise fun a b => rank a.1 < rank b.1 := by
  induction l with
  | nil => simp [insertIn]
  | cons head rest ih =>
    have ⟨hhead, hrest⟩ := List.pairwise_cons.mp h
    simp only [insertIn]
    split
    · refine List.pairwise_cons.mpr ⟨fun b hb => ?_, h⟩
      rcases List.mem_cons.mp hb with rfl | hb
      · assumption
      · have := hhead b hb
        show rank k < rank b.1
        omega
    · split
      · refine List.pairwise_cons.mpr ⟨fun b hb => ?_, hrest⟩
        have := hhead b hb
        show rank k < rank b.1
        omega
      · refine List.pairwise_cons.mpr ⟨fun b hb => ?_, ih hrest⟩
        rcases mem_insertIn hb with rfl | hb
        · show rank head.1 < rank k
          omega
        · exact hhead b hb

theorem findIn_insertIn {k k' : κ} {v : α} {l : List (κ × α)}
    (h : l.Pairwise fun a b => rank a.1 < rank b.1) :
    findIn k' (insertIn k v l) = if rank k = rank k' then some v else findIn k' l := by
  induction l with
  | nil => rfl
  | cons head rest ih =>
    have ⟨hhead, hrest⟩ := List.pairwise_cons.mp h
    simp only [insertIn]
    split
    · rfl
    · split
      · rename_i hk
        by_cases hk' : rank k = rank k'
        · simp [findIn, hk']
        · have : rank head.1 ≠ rank k' := by omega
          simp [findIn, hk', this]
      · by_cases hk' : rank head.1 = rank k'
        · have : rank k ≠ rank k' := by omega
          simp [findIn, hk', this]
        · simp [findIn, hk', ih hrest]

/-- Stores a value under a key, in place of the value stored there before. -/
def insert (m : OrderedMap κ α) (k : κ) (v : α) : OrderedMap κ α :=
  ⟨insertIn k v m.entries, pairwise_insertIn m.ascending⟩

@[simp] theorem find?_empty (k : κ) : (empty : OrderedMap κ α).find? k = none := rfl

/-- After a value was stored under a key, it is found there, and nothing else has changed. -/
theorem find?_insert [DecidableEq κ] (m : OrderedMap κ α) (k k' : κ) (v : α) :
    (m.insert k v).find? k' = if k = k' then some v else m.find? k' := by
  have hrank : rank k = rank k' ↔ k = k' := ⟨Ranked.rank_inj, fun h => h ▸ rfl⟩
  simp only [find?, insert, findIn_insertIn m.ascending, hrank]

/-- The map of a list of entries; of entries with one key the last counts. -/
def ofList (l : List (κ × α)) : OrderedMap κ α :=
  l.foldl (fun m entry => m.insert entry.1 entry.2) empty

/-- The entries whose keys satisfy `p`. -/
def filterKeys (m : OrderedMap κ α) (p : κ → Bool) : OrderedMap κ α :=
  ⟨m.entries.filter fun entry => p entry.1, m.ascending.sublist List.filter_sublist⟩

/-- The entries that `filterKeys` keeps. -/
@[simp] theorem mem_filterKeys {m : OrderedMap κ α} {p : κ → Bool} {entry : κ × α} :
    entry ∈ (m.filterKeys p).entries ↔ entry ∈ m.entries ∧ p entry.1 = true := by
  simp [filterKeys]

end OrderedMap

end TelemetryBands
