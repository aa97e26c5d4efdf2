import Mathlib.Order.Lattice
import Mathlib.Data.List.Pairwise

/-!
# Ordered maps with a comparison of their own

A map that compares its keys through their rank, as a `std::map` with a comparator does: keys
of equal rank are the same key, and the spelling that came first is kept. The entries stand in
strictly increasing order of rank.
-/

namespace CppImprovement

variable {κ β ν : Type} [LinearOrder β]

/-- A map whose keys are told apart by `rank` only, with its entries in order. -/
structure OrderedMap (rank : κ → β) (ν : Type) where
  entries : List (κ × ν)
  sorted : entries.Pairwise fun a b => rank a.1 < rank b.1

namespace OrderedMap

variable {rank : κ → β}

/-- Assign in a sorted list of entries, or insert at the place of the key. -/
def assignEntries (rank : κ → β) (k : κ) (v : ν) : List (κ × ν) → List (κ × ν)
  | [] => [(k, v)]
  | (k', v') :: rest =>
    if rank k < rank k' then (k, v) :: (k', v') :: rest
    else if rank k = rank k' then (k', v) :: rest
    else (k', v') :: assignEntries rank k v rest

/-- The ranks after an assignment are those before it and the assigned one. -/
theorem mem_ranks_assignEntries {k : κ} {v : ν} {l : List (κ × ν)} {b : β} :
    b ∈ (assignEntries rank k v l).map (fun e => rank e.1) ↔
      b = rank k ∨ b ∈ l.map fun e => rank e.1 := by
  induction l with
  | nil => simp [assignEntries]
  | cons e rest ih =>
    obtain ⟨k', v'⟩ := e
    rw [assignEntries]
    by_cases hlt : rank k < rank k'
    · rw [if_pos hlt]
      simp only [List.map_cons, List.mem_cons]
    · rw [if_neg hlt]
      by_cases heq : rank k = rank k'
      · rw [if_pos heq]
        simp only [List.map_cons, List.mem_cons, heq]
        exact or_self_left.symm
      · rw [if_neg heq]
        simp only [List.map_cons, List.mem_cons, ih]
        exact or_left_comm

/-- Assignment keeps the entries in order. -/
theorem sorted_assignEntries {k : κ} {v : ν} {l : List (κ × ν)}
    (h : l.Pairwise fun a b => rank a.1 < rank b.1) :
    (assignEntries rank k v l).Pairwise fun a b => rank a.1 < rank b.1 := by
  induction l with
  | nil => exact List.pairwise_singleton _ _
  | cons e rest ih =>
    obtain ⟨k', v'⟩ := e
    obtain ⟨hhead, htail⟩ := List.pairwise_cons.mp h
    rw [assignEntries]
    by_cases hlt : rank k < rank k'
    · rw [if_pos hlt]
      refine List.pairwise_cons.mpr ⟨?_, h⟩
      intro e he
      rcases List.mem_cons.mp he with rfl | he
      · exact hlt
      · exact lt_trans hlt (hhead e he)
    · rw [if_neg hlt]
      by_cases heq : rank k = rank k'
      · rw [if_pos heq]
        exact List.pairwise_cons.mpr ⟨hhead, htail⟩
      · rw [if_neg heq]
        refine List.pairwise_cons.mpr ⟨?_, ih htail⟩
        intro e he
        rcases mem_ranks_assignEntries.mp (List.mem_map_of_mem he) with hk | hk
        · exact hk ▸ lt_of_le_of_ne (not_lt.mp hlt) (Ne.symm heq)
        · obtain ⟨e', he', hr⟩ := List.mem_map.mp hk
          exact hr ▸ hhead e' he'

/-- The map without entries. -/
def empty : OrderedMap rank ν := ⟨[], List.Pairwise.nil⟩

/-- The ranks of the keys, in order. -/
def ranks (m : OrderedMap rank ν) : List β := m.entries.map fun e => rank e.1

/-- Whether the map has an entry for the key. -/
def contains (m : OrderedMap rank ν) (k : κ) : Bool := decide (rank k ∈ m.ranks)

/-- `insert_or_assign`. -/
def insertOrAssign (m : OrderedMap rank ν) (k : κ) (v : ν) : OrderedMap rank ν :=
  ⟨assignEntries rank k v m.entries, sorted_assignEntries m.sorted⟩

@[simp]
theorem ranks_empty : (empty : OrderedMap rank ν).ranks = [] := rfl

/-- A key is in the map when its rank is. -/
theorem contains_iff {m : OrderedMap rank ν} {k : κ} : m.contains k = true ↔ rank k ∈ m.ranks :=
  decide_eq_true_iff

/-- Assigning adds the rank of its key. -/
theorem mem_ranks_insertOrAssign {m : OrderedMap rank ν} {k : κ} {v : ν} {b : β} :
    b ∈ (m.insertOrAssign k v).ranks ↔ b = rank k ∨ b ∈ m.ranks :=
  mem_ranks_assignEntries

end OrderedMap

end CppImprovement
