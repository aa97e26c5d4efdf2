import Mathlib.Data.List.Perm.Basic
import Mathlib.Data.List.Sort

/-!
# Priority queues

The content of a priority queue is a list whose order does not matter. All that is assumed
of an implementation is what the standard library promises: from a non-empty content it
takes one element that no other element of the content exceeds.
-/

namespace CppImprovement

variable {α : Type}

/-- A choice of the element a priority queue ordered by `less` gives out next, together with
the content that remains. -/
structure PriorityQueue (less : α → α → Bool) where
  extract : List α → Option (α × List α)
  extract_nil : extract [] = none
  extract_cons : ∀ x l, (extract (x :: l)).isSome
  perm : ∀ {l x rest}, extract l = some (x, rest) → (x :: rest).Perm l
  maximal : ∀ {l x rest}, extract l = some (x, rest) → ∀ y ∈ l, less x y = false

namespace PriorityQueue

variable {less : α → α → Bool} (Q : PriorityQueue less)

/-- The element that is given out next. -/
def top (l : List α) : Option α := (Q.extract l).map Prod.fst

/-- The content without the element that is given out next. -/
def pop (l : List α) : List α := ((Q.extract l).map Prod.snd).getD []

/-- A queue with elements gives one out. -/
theorem exists_extract {l : List α} (h : l ≠ []) : ∃ x rest, Q.extract l = some (x, rest) := by
  cases l with
  | nil => exact absurd rfl h
  | cons x l =>
    obtain ⟨⟨y, rest⟩, hy⟩ := Option.isSome_iff_exists.mp (Q.extract_cons x l)
    exact ⟨y, rest, hy⟩

/-- A queue that gives none out is empty. -/
theorem eq_nil_of_extract {l : List α} (h : Q.extract l = none) : l = [] := by
  by_contra hne
  obtain ⟨x, rest, hx⟩ := Q.exists_extract hne
  rw [h] at hx
  cases hx

variable {Q} in

/-- What is extracted was on top. -/
theorem top_of_extract {l rest : List α} {x : α} (h : Q.extract l = some (x, rest)) :
    Q.top l = some x := by
  rw [top, h]
  rfl

variable {Q} in

/-- What remains is what popping leaves. -/
theorem pop_of_extract {l rest : List α} {x : α} (h : Q.extract l = some (x, rest)) :
    Q.pop l = rest := by
  rw [pop, h]
  rfl

variable {Q} in

/-- When the content can be put into a strict order, its first element is given out next. -/
theorem extract_of_sorted {l sorted rest : List α} {x : α} (hperm : l.Perm sorted)
    (hsorted : sorted.Pairwise fun a b => less b a = true)
    (h : Q.extract l = some (x, rest)) : ∃ tail, sorted = x :: tail ∧ rest.Perm tail := by
  have hall := (Q.perm h).trans hperm
  cases sorted with
  | nil => cases hall.eq_nil
  | cons y tail =>
    have hxy : x = y := by
      rcases List.mem_cons.mp (hall.subset List.mem_cons_self) with heq | hmem
      · exact heq
      · have hless := (List.pairwise_cons.mp hsorted).1 x hmem
        have hmax := Q.maximal h y (hperm.symm.subset List.mem_cons_self)
        rw [hless] at hmax
        cases hmax
    subst hxy
    exact ⟨tail, rfl, hall.cons_inv⟩

end PriorityQueue

/-- An ordered insertion keeps a strict order that agrees with it on the new element. -/
theorem pairwise_orderedInsert {r R : α → α → Prop} [DecidableRel r]
    (trans : ∀ {a b c}, R a b → R b c → R a c) {x : α} {l : List α} (hl : l.Pairwise R)
    (hbefore : ∀ a ∈ l, r x a → R x a) (hbehind : ∀ a ∈ l, ¬ r x a → R a x) :
    (l.orderedInsert r x).Pairwise R := by
  induction l with
  | nil => exact List.pairwise_singleton _ _
  | cons b l ih =>
    obtain ⟨hb, hl'⟩ := List.pairwise_cons.mp hl
    rw [List.orderedInsert_cons]
    by_cases hxb : r x b
    · rw [if_pos hxb]
      have hRxb := hbefore b List.mem_cons_self hxb
      refine List.pairwise_cons.mpr ⟨?_, hl⟩
      intro y hy
      rcases List.mem_cons.mp hy with rfl | hy
      · exact hRxb
      · exact trans hRxb (hb y hy)
    · rw [if_neg hxb]
      have hrest := ih hl' (fun a ha => hbefore a (List.mem_cons_of_mem b ha))
        (fun a ha => hbehind a (List.mem_cons_of_mem b ha))
      refine List.pairwise_cons.mpr ⟨?_, hrest⟩
      intro y hy
      rcases (List.mem_orderedInsert r).mp hy with rfl | hy
      · exact hbehind b List.mem_cons_self hxb
      · exact hb y hy

section scan

variable (less : α → α → Bool)

/-- Take the greatest element by one pass over the content, the first of equal ones. -/
def extractMax : List α → Option (α × List α)
  | [] => none
  | x :: l =>
    match extractMax l with
    | none => some (x, [])
    | some (y, rest) => if less x y then some (y, x :: rest) else some (x, y :: rest)

private theorem extractMax_cons_isSome (x : α) (l : List α) :
    (extractMax less (x :: l)).isSome := by
  rw [extractMax]
  cases extractMax less l with
  | none => rfl
  | some r =>
    by_cases h : less x r.1 = true
    · simp only [h, if_true, Option.isSome_some]
    · simp only [h, Bool.false_eq_true, if_false, Option.isSome_some]

private theorem extractMax_perm {l rest : List α} {x : α} (h : extractMax less l = some (x, rest)) :
    (x :: rest).Perm l := by
  induction l generalizing x rest with
  | nil => cases h
  | cons z l ih =>
    rw [extractMax] at h
    cases hl : extractMax less l with
    | none =>
      cases l with
      | nil =>
        rw [hl] at h
        cases h
        exact List.Perm.refl _
      | cons w l =>
        have := extractMax_cons_isSome less w l
        rw [hl] at this
        cases this
    | some r =>
      obtain ⟨y, rest'⟩ := r
      have hp := ih hl
      rw [hl] at h
      simp only at h
      split at h
      · cases h
        exact (List.Perm.swap _ _ _).trans (hp.cons z)
      · cases h
        exact hp.cons z

private theorem extractMax_maximal (irrefl : ∀ a, less a a = false)
    (trans : ∀ {a b c}, less a b = false → less b c = false → less a c = false)
    (asymm : ∀ {a b}, less a b = true → less b a = false)
    {l rest : List α} {x : α} (h : extractMax less l = some (x, rest)) :
    ∀ y ∈ l, less x y = false := by
  induction l generalizing x rest with
  | nil => cases h
  | cons z l ih =>
    have hperm := extractMax_perm less h
    rw [extractMax] at h
    cases hl : extractMax less l with
    | none =>
      rw [hl] at h
      cases h
      intro y hy
      have : y = z := List.mem_singleton.mp (hperm.symm.subset hy)
      rw [this]
      exact irrefl z
    | some r =>
      obtain ⟨w, rest'⟩ := r
      have hw := ih hl
      rw [hl] at h
      simp only at h
      split at h
      · rename_i hlt
        cases h
        rintro y (_ | ⟨_, hy⟩)
        · exact asymm hlt
        · exact hw y hy
      · rename_i hge
        cases h
        rintro y (_ | ⟨_, hy⟩)
        · exact irrefl z
        · exact trans (Bool.eq_false_iff.mpr hge) (hw y hy)

/-- The one-pass scan is a priority queue for every strict weak order. -/
def scanQueue (irrefl : ∀ a, less a a = false)
    (trans : ∀ {a b c}, less a b = false → less b c = false → less a c = false)
    (asymm : ∀ {a b}, less a b = true → less b a = false) : PriorityQueue less where
  extract := extractMax less
  extract_nil := rfl
  extract_cons := extractMax_cons_isSome less
  perm := extractMax_perm less
  maximal := extractMax_maximal less irrefl trans asymm

end scan

end CppImprovement
