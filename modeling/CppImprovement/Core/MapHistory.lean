import CppImprovement.Core.OrderedMap
import Mathlib.Data.List.Induction
import Mathlib.Data.List.Nodup

/-!
# Maps under a history of accesses

A `std::map` of pointers is read with `operator[]`, which inserts a null pointer under a key that
it does not find. Over a history of assignments and such reads, a read returns what was last
assigned under its key; the values of the map are the last assigned ones of all keys, with a null
for every key that was read and never assigned.
-/

namespace CppImprovement

variable {κ β ν α : Type} [LinearOrder β]

/-! ## Reading an ordered map -/

namespace OrderedMap

variable {rank : κ → β}

/-- The value under a key. -/
def find? (m : OrderedMap rank ν) (k : κ) : Option ν :=
  (m.entries.find? fun e => decide (rank e.1 = rank k)).map Prod.snd

/-- `operator[]` for reading: a key that is not found gets the default value. -/
def subscript (m : OrderedMap rank ν) (k : κ) (init : ν) : ν × OrderedMap rank ν :=
  match m.find? k with
  | some v => (v, m)
  | none => (init, m.insertOrAssign k init)

/-- The values in the order of their keys. -/
def values (m : OrderedMap rank ν) : List ν := m.entries.map Prod.snd

private theorem find?_assignEntries (k k' : κ) (v : ν) (l : List (κ × ν)) :
    ((assignEntries rank k v l).find? fun e => decide (rank e.1 = rank k')).map Prod.snd =
      if rank k = rank k' then some v
      else (l.find? fun e => decide (rank e.1 = rank k')).map Prod.snd := by
  induction l with
  | nil =>
    rw [assignEntries, List.find?_cons]
    by_cases h : rank k = rank k' <;> simp [h]
  | cons e rest ih =>
    obtain ⟨k₁, v₁⟩ := e
    rw [assignEntries]
    by_cases hlt : rank k < rank k₁
    · rw [if_pos hlt, List.find?_cons]
      by_cases h : rank k = rank k' <;> simp [h]
    · rw [if_neg hlt]
      by_cases heq : rank k = rank k₁
      · rw [if_pos heq, List.find?_cons, List.find?_cons]
        by_cases h : rank k = rank k'
        · simp [h, heq ▸ h]
        · have h₁ : rank k₁ ≠ rank k' := heq ▸ h
          simp [h, h₁]
      · rw [if_neg heq, List.find?_cons, List.find?_cons]
        by_cases h₁ : rank k₁ = rank k'
        · have h : rank k ≠ rank k' := h₁ ▸ heq
          simp [h, h₁]
        · simpa [h₁] using ih

/-- An assignment changes the value of its key only. -/
theorem find?_insertOrAssign (m : OrderedMap rank ν) (k k' : κ) (v : ν) :
    (m.insertOrAssign k v).find? k' = if rank k = rank k' then some v else m.find? k' :=
  find?_assignEntries k k' v m.entries

/-- A read changes the map only under a key without a value. -/
theorem find?_subscript (m : OrderedMap rank ν) (k k' : κ) (init : ν) :
    (m.subscript k init).2.find? k' =
      if rank k = rank k' then some ((m.find? k).getD init) else m.find? k' := by
  unfold subscript
  cases hf : m.find? k with
  | none => exact find?_insertOrAssign m k k' init
  | some v =>
    by_cases h : rank k = rank k'
    · have hsame : m.find? k' = m.find? k := by
        rw [find?, find?, h]
      rw [if_pos h, hsame, hf]
      rfl
    · rw [if_neg h]

private theorem subscript_fst (m : OrderedMap rank ν) (k : κ) (init : ν) :
    (m.subscript k init).1 = (m.find? k).getD init := by
  unfold subscript
  cases m.find? k with
  | none => rfl
  | some v => rfl

/-- Every entry is found under its key. -/
theorem find?_of_mem {m : OrderedMap rank ν} {e : κ × ν} (he : e ∈ m.entries) :
    m.find? e.1 = some e.2 := by
  obtain ⟨l, hsorted⟩ := m
  rw [find?]
  induction l with
  | nil => cases he
  | cons x rest ih =>
    obtain ⟨hhead, htail⟩ := List.pairwise_cons.mp hsorted
    rcases List.mem_cons.mp he with rfl | he
    · simp
    · have hne : rank x.1 ≠ rank e.1 := ne_of_lt (hhead e he)
      rw [List.find?_cons_of_neg (by simpa using hne)]
      exact ih htail he

private theorem mem_of_find? {m : OrderedMap rank ν} {k : κ} {v : ν} (h : m.find? k = some v) :
    ∃ e ∈ m.entries, rank e.1 = rank k ∧ e.2 = v := by
  obtain ⟨e, he, hv⟩ := Option.map_eq_some_iff.mp h
  have hrank := List.find?_some he
  exact ⟨e, List.mem_of_find?_eq_some he, of_decide_eq_true hrank, hv⟩

end OrderedMap

/-! ## Histories -/

/-- An access of a map of pointers: a pointer is assigned, or a key is read with `operator[]`. -/
inductive Access (κ α : Type)
  | assign (k : κ) (v : α)
  | read (k : κ)

/-- The key of an access. -/
def Access.key : Access κ α → κ
  | .assign k _ => k
  | .read k => k

/-- The access with its key printed. -/
def Access.rekey {γ : Type} (f : κ → γ) : Access κ α → Access γ α
  | .assign k v => .assign (f k) v
  | .read k => .read (f k)

/-- What was last assigned under a key. -/
def lastAssigned [DecidableEq κ] (k : κ) (history : List (Access κ α)) : Option α :=
  history.foldl (fun last a =>
    match a with
    | .assign k' v => if k' = k then some v else last
    | .read _ => last) none

/-- Perform an access. -/
def OrderedMap.access {rank : κ → β} (m : OrderedMap rank (Option α)) :
    Access κ α → OrderedMap rank (Option α)
  | .assign k v => m.insertOrAssign k (some v)
  | .read k => (m.subscript k none).2

section histories

variable [DecidableEq κ] {h : List (Access κ α)} {k : κ}

private theorem lastAssigned_nil : lastAssigned k ([] : List (Access κ α)) = none := rfl

private theorem lastAssigned_assign (k' : κ) (v : α) :
    lastAssigned k (h ++ [.assign k' v]) = if k' = k then some v else lastAssigned k h := by
  rw [lastAssigned, List.foldl_append]
  rfl

private theorem lastAssigned_read (k' : κ) :
    lastAssigned k (h ++ [.read k']) = lastAssigned k h := by
  rw [lastAssigned, List.foldl_append]
  rfl

private theorem isSome_lastAssigned_iff :
    (lastAssigned k h).isSome = true ↔ ∃ v, .assign k v ∈ h := by
  induction h using List.reverseRecOn with
  | nil => simp [lastAssigned_nil]
  | append_singleton h a ih =>
    cases a with
    | assign k' v =>
      rw [lastAssigned_assign]
      by_cases heq : k' = k
      · subst heq
        simp
      · rw [if_neg heq, ih]
        simp [Ne.symm heq]
    | read k' =>
      rw [lastAssigned_read, ih]
      simp

private theorem lastAssigned_of_notMem (hk : k ∉ h.map Access.key) : lastAssigned k h = none := by
  by_contra hne
  obtain ⟨v, hv⟩ := isSome_lastAssigned_iff.mp (Option.isSome_iff_ne_none.mpr hne)
  exact hk (List.mem_map.mpr ⟨_, hv, rfl⟩)

/-- Printing the keys changes nothing when it keeps them apart. -/
theorem lastAssigned_rekey {γ : Type} [DecidableEq γ] {f : κ → γ}
    (hf : ∀ a ∈ h, f a.key = f k → a.key = k) :
    lastAssigned (f k) (h.map (Access.rekey f)) = lastAssigned k h := by
  induction h using List.reverseRecOn with
  | nil => rfl
  | append_singleton h a ih =>
    obtain ⟨hh, ha⟩ := List.forall_mem_append.mp hf
    rw [List.map_append, List.map_singleton]
    cases a with
    | assign k' v =>
      have hkey : f k' = f k → k' = k := ha _ (List.mem_singleton_self _)
      rw [Access.rekey, lastAssigned_assign, lastAssigned_assign, ih hh]
      by_cases heq : k' = k
      · rw [if_pos heq, if_pos (congrArg f heq)]
      · rw [if_neg heq, if_neg fun hfeq => heq (hkey hfeq)]
    | read k' =>
      rw [Access.rekey, lastAssigned_read, lastAssigned_read, ih hh]

/-- What stands under a key after a history. -/
theorem find?_history {rank : κ → β} (hrank : Function.Injective rank) (k : κ)
    (h : List (Access κ α)) :
    (h.foldl OrderedMap.access (OrderedMap.empty : OrderedMap rank (Option α))).find? k =
      if k ∈ h.map Access.key then some (lastAssigned k h) else none := by
  induction h using List.reverseRecOn with
  | nil => rfl
  | append_singleton h a ih =>
    rw [List.foldl_append, List.foldl_cons, List.foldl_nil, List.map_append, List.map_singleton]
    cases a with
    | assign k' v =>
      rw [OrderedMap.access, OrderedMap.find?_insertOrAssign, lastAssigned_assign, ih]
      by_cases heq : k' = k
      · simp [heq, Access.key]
      · simp [heq, hrank.ne heq, Access.key, Ne.symm heq]
    | read k' =>
      rw [OrderedMap.access, OrderedMap.find?_subscript, lastAssigned_read]
      by_cases heq : k' = k
      · subst heq
        have hlast : k' ∈ h.map Access.key ++ [Access.key (.read k' : Access κ α)] :=
          List.mem_append_right _ (List.mem_singleton_self k')
        rw [if_pos rfl, if_pos hlast, ih]
        by_cases hmem : k' ∈ h.map Access.key
        · rw [if_pos hmem]
          rfl
        · rw [if_neg hmem, lastAssigned_of_notMem hmem]
          rfl
      · simp [hrank.ne heq, Access.key, Ne.symm heq, ih]

end histories

/-! ## What a map lists -/

section values

variable {γ : Type} {rank : γ → β} {f : κ → γ} {h : List (Access κ α)}

private theorem keys_rekey (h : List (Access κ α)) :
    (h.map (Access.rekey f)).map Access.key = (h.map Access.key).map f := by
  rw [List.map_map, List.map_map]
  refine List.map_congr_left fun a _ => ?_
  cases a <;> rfl

private theorem exists_keys {P : κ → Prop} {g : κ → ν} {l : List (γ × ν)}
    (hl : ∀ e ∈ l, ∃ k, P k ∧ e.1 = f k ∧ e.2 = g k) :
    ∃ ks : List κ, (∀ k ∈ ks, P k) ∧ l.map Prod.fst = ks.map f ∧ l.map Prod.snd = ks.map g := by
  induction l with
  | nil => exact ⟨[], by simp, rfl, rfl⟩
  | cons e l ih =>
    obtain ⟨⟨k, hP, hf, hg⟩, hrest⟩ := List.forall_mem_cons.mp hl
    obtain ⟨ks, hPs, hfs, hgs⟩ := ih hrest
    refine ⟨k :: ks, List.forall_mem_cons.mpr ⟨hP, hPs⟩, ?_, ?_⟩
    · rw [List.map_cons, List.map_cons, hf, hfs]
    · rw [List.map_cons, List.map_cons, hg, hgs]

/-- A part of a state that the calls change by accesses only is the map of these accesses. -/
theorem foldl_accesses {σ χ : Type} {perform : σ → χ → σ} {part : σ → OrderedMap rank (Option α)}
    {access : χ → Option (Access κ α)}
    (h : ∀ s c, part (perform s c) =
      (access c).elim (part s) fun a => (part s).access (a.rekey f))
    (calls : List χ) (s : σ) :
    part (calls.foldl perform s) =
      ((calls.filterMap access).map (Access.rekey f)).foldl OrderedMap.access (part s) := by
  induction calls generalizing s with
  | nil => rfl
  | cons c calls ih =>
    rw [List.foldl_cons, ih, h]
    cases hc : access c with
    | none => rw [List.filterMap_cons_none hc, Option.elim_none]
    | some a => rw [List.filterMap_cons_some hc, Option.elim_some, List.map_cons, List.foldl_cons]

variable [DecidableEq κ] [DecidableEq γ]

/-- The values are the last assigned ones, one for every key under which something was assigned. -/
def Lists (values : List (Option α)) (h : List (Access κ α)) : Prop :=
  ∃ ks : List κ, ks.Nodup ∧ (∀ k, k ∈ ks ↔ (lastAssigned k h).isSome = true) ∧
    values.Perm (ks.map fun k => lastAssigned k h)

/-- The map after a history whose keys are printed. -/
def printedMap (rank : γ → β) (f : κ → γ) (h : List (Access κ α)) : OrderedMap rank (Option α) :=
  (h.map (Access.rekey f)).foldl OrderedMap.access .empty

/-- The keys of a history are kept apart by how they are printed. -/
structure Printable (rank : γ → β) (f : κ → γ) (valid : κ → Prop) : Prop where
  rank_injective : Function.Injective rank
  apart : ∀ k k', valid k → valid k' → f k = f k' → k = k'

variable {valid : κ → Prop}

/-- A printed key finds what was last assigned under the key itself. -/
theorem find?_printedMap (hf : Printable rank f valid) (hh : ∀ a ∈ h, valid a.key) {k : κ}
    (hk : valid k) :
    (printedMap rank f h).find? (f k) =
      if k ∈ h.map Access.key then some (lastAssigned k h) else none := by
  have hkeys : f k ∈ (h.map Access.key).map f ↔ k ∈ h.map Access.key := by
    constructor
    · intro hmem
      obtain ⟨k', hk', heq⟩ := List.mem_map.mp hmem
      obtain ⟨a, ha, rfl⟩ := List.mem_map.mp hk'
      rw [← hf.apart _ _ (hh a ha) hk heq]
      exact hk'
    · exact List.mem_map_of_mem
  rw [printedMap, find?_history hf.rank_injective, keys_rekey, lastAssigned_rekey]
  · by_cases hmem : k ∈ h.map Access.key
    · rw [if_pos hmem, if_pos (hkeys.mpr hmem)]
    · rw [if_neg hmem, if_neg fun h => hmem (hkeys.mp h)]
  · exact fun a ha heq => hf.apart _ _ (hh a ha) hk heq

/-- A read returns what was last assigned under its key, or null. -/
theorem subscript_printedMap (hf : Printable rank f valid) (hh : ∀ a ∈ h, valid a.key) {k : κ}
    (hk : valid k) : ((printedMap rank f h).subscript (f k) none).1 = lastAssigned k h := by
  rw [OrderedMap.subscript_fst, find?_printedMap hf hh hk]
  by_cases hmem : k ∈ h.map Access.key
  · rw [if_pos hmem]
    rfl
  · rw [if_neg hmem, lastAssigned_of_notMem hmem]
    rfl

/-- The map has one entry for every key of the history, with what was last assigned under it. -/
theorem values_printedMap (hf : Printable rank f valid) (hh : ∀ a ∈ h, valid a.key) :
    ∃ ks : List κ, ks.Nodup ∧ (∀ k, k ∈ ks ↔ k ∈ h.map Access.key) ∧
      (printedMap rank f h).values = ks.map fun k => lastAssigned k h := by
  have hentry : ∀ e ∈ (printedMap rank f h).entries,
      ∃ k, k ∈ h.map Access.key ∧ e.1 = f k ∧ e.2 = lastAssigned k h := by
    intro e he
    have hfind := OrderedMap.find?_of_mem he
    rw [printedMap, find?_history hf.rank_injective, keys_rekey] at hfind
    split at hfind
    · rename_i hmem
      obtain ⟨k, hk, heq⟩ := List.mem_map.mp hmem
      obtain ⟨a, ha, rfl⟩ := List.mem_map.mp hk
      rw [← heq, lastAssigned_rekey fun b hb => hf.apart _ _ (hh b hb) (hh a ha)] at hfind
      exact ⟨a.key, hk, heq.symm, (Option.some.inj hfind).symm⟩
    · cases hfind
  obtain ⟨ks, hkeys, hfst, hsnd⟩ := exists_keys hentry
  refine ⟨ks, ?_, fun k => ⟨hkeys k, fun hk => ?_⟩, hsnd⟩
  · have hnodup : ((printedMap rank f h).entries.map Prod.fst).Nodup := by
      refine List.pairwise_map.mpr ((printedMap rank f h).sorted.imp ?_)
      intro a b hlt heq
      rw [heq] at hlt
      exact lt_irrefl _ hlt
    rw [hfst] at hnodup
    exact hnodup.of_map
  · obtain ⟨a, ha, rfl⟩ := List.mem_map.mp hk
    have hfind := find?_printedMap hf hh (hh a ha)
    rw [if_pos hk] at hfind
    obtain ⟨e, he, hrank, -⟩ := OrderedMap.mem_of_find? hfind
    have hmem : f a.key ∈ ks.map f := by
      rw [← hfst, ← hf.rank_injective hrank]
      exact List.mem_map_of_mem he
    obtain ⟨k, hks, heq⟩ := List.mem_map.mp hmem
    obtain ⟨b, hb, rfl⟩ := List.mem_map.mp (hkeys k hks)
    rw [← hf.apart _ _ (hh b hb) (hh a ha) heq]
    exact hks

/-- The values are what was last assigned, without nulls, exactly when something is assigned
under every key that is read. -/
theorem lists_printedMap_iff (hf : Printable rank f valid) (hh : ∀ a ∈ h, valid a.key) :
    Lists (printedMap rank f h).values h ↔ ∀ k, .read k ∈ h → ∃ v, .assign k v ∈ h := by
  obtain ⟨ks, hnodup, hkeys, hvalues⟩ := values_printedMap hf hh
  rw [hvalues]
  constructor
  · rintro ⟨ks', -, hkeys', hperm⟩ k hread
    have hk : k ∈ ks := (hkeys k).mpr (List.mem_map.mpr ⟨_, hread, rfl⟩)
    have hlast : lastAssigned k h ∈ ks'.map fun k => lastAssigned k h :=
      hperm.subset (List.mem_map_of_mem hk)
    obtain ⟨k', hk', heq⟩ := List.mem_map.mp hlast
    rw [← isSome_lastAssigned_iff, ← heq]
    exact (hkeys' k').mp hk'
  · intro hassigned
    refine ⟨ks, hnodup, fun k => ?_, List.Perm.refl _⟩
    rw [hkeys, isSome_lastAssigned_iff]
    constructor
    · intro hk
      obtain ⟨a, ha, rfl⟩ := List.mem_map.mp hk
      cases a with
      | assign k v => exact ⟨v, ha⟩
      | read k => exact hassigned k ha
    · rintro ⟨v, hv⟩
      exact List.mem_map.mpr ⟨_, hv, rfl⟩

end values

end CppImprovement
