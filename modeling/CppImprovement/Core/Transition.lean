import Mathlib.Data.List.Basic

/-!
# Runs of concurrent components

A component whose operations interleave is a step function on its shared state: a label
says which thread takes which atomic step, the step may be disabled, and it may show
something to the outside. A schedule is a list of labels; its run collects what the steps
show. Invariants relate what has been shown so far to the current state.
-/

namespace CppImprovement

variable {ι ο σ : Type}

/-- Take the steps of a schedule in turn, until one of them is disabled. -/
def exec (step : ι → σ → Option (List ο × σ)) : List ι → σ → Option (List ο × σ)
  | [], s => some ([], s)
  | i :: is, s =>
    match step i s with
    | none => none
    | some (o, t) => (exec step is t).map fun r => (o ++ r.1, r.2)

/-- The steps that are taken only in states that meet a condition. -/
def guarded (C : ι → σ → Prop) [∀ i s, Decidable (C i s)] (step : ι → σ → Option (List ο × σ))
    (i : ι) (s : σ) : Option (List ο × σ) :=
  if C i s then step i s else none

section runs

variable {step : ι → σ → Option (List ο × σ)}

/-- A run whose first step is known. -/
theorem exec_cons_of_eq {i : ι} {is : List ι} {s t : σ} {o : List ο} (h : step i s = some (o, t)) :
    exec step (i :: is) s = (exec step is t).map fun r => (o ++ r.1, r.2) := by
  rw [exec, h]

/-- A run of at least one step is that step followed by the run of the others. -/
theorem exec_cons_eq_some {i : ι} {is : List ι} {s u : σ} {tr : List ο} :
    exec step (i :: is) s = some (tr, u) ↔
      ∃ o t tr', step i s = some (o, t) ∧ exec step is t = some (tr', u) ∧ tr = o ++ tr' := by
  constructor
  · intro h
    rw [exec] at h
    cases hs : step i s with
    | none =>
      rw [hs] at h
      cases h
    | some r =>
      obtain ⟨o, t⟩ := r
      rw [hs] at h
      obtain ⟨⟨tr', u'⟩, hr, heq⟩ := Option.map_eq_some_iff.mp h
      cases heq
      exact ⟨o, t, tr', rfl, hr, rfl⟩
  · rintro ⟨o, t, tr', hs, hr, rfl⟩
    rw [exec_cons_of_eq hs, hr]
    rfl

/-- A schedule in two parts runs the second part from where the first part ends. -/
theorem exec_append_eq_some {is js : List ι} {s u : σ} {tr : List ο} :
    exec step (is ++ js) s = some (tr, u) ↔
      ∃ t tr₁ tr₂, exec step is s = some (tr₁, t) ∧ exec step js t = some (tr₂, u) ∧
        tr = tr₁ ++ tr₂ := by
  induction is generalizing s tr with
  | nil =>
    constructor
    · intro h
      exact ⟨s, [], tr, rfl, h, rfl⟩
    · rintro ⟨t, tr₁, tr₂, h, hj, rfl⟩
      cases h
      exact hj
  | cons i is ih =>
    rw [List.cons_append, exec_cons_eq_some]
    constructor
    · rintro ⟨o, t, tr', hs, hr, rfl⟩
      obtain ⟨v, tr₁, tr₂, hi, hj, rfl⟩ := ih.mp hr
      exact ⟨v, o ++ tr₁, tr₂, exec_cons_eq_some.mpr ⟨o, t, tr₁, hs, hi, rfl⟩, hj,
        (List.append_assoc o tr₁ tr₂).symm⟩
    · rintro ⟨v, tr₁, tr₂, h, hj, rfl⟩
      obtain ⟨o, t, tr', hs, hi, rfl⟩ := exec_cons_eq_some.mp h
      exact ⟨o, t, tr' ++ tr₂, hs, ih.mpr ⟨v, tr', tr₂, hi, hj, rfl⟩,
        List.append_assoc o tr' tr₂⟩

/-- What every step of a kind preserves, whatever was shown before, holds at the end of every run
of such steps. -/
theorem exec_invariant_on {I : List ο → σ → Prop} {p : ι → Prop}
    (hstep : ∀ tr i s o t, p i → I tr s → step i s = some (o, t) → I (tr ++ o) t)
    {is : List ι} (hp : ∀ i ∈ is, p i) {s u : σ} {pre tr : List ο} (hs : I pre s)
    (h : exec step is s = some (tr, u)) : I (pre ++ tr) u := by
  induction is generalizing s pre tr with
  | nil =>
    cases h
    rw [List.append_nil]
    exact hs
  | cons i is ih =>
    obtain ⟨o, t, tr', hi, hr, rfl⟩ := exec_cons_eq_some.mp h
    obtain ⟨hpi, hpis⟩ := List.forall_mem_cons.mp hp
    rw [← List.append_assoc]
    exact ih hpis (hstep pre i s o t hpi hs hi) hr

/-- What every step preserves, whatever was shown before, holds at the end of every run. -/
theorem exec_invariant_from {I : List ο → σ → Prop}
    (hstep : ∀ tr i s o t, I tr s → step i s = some (o, t) → I (tr ++ o) t)
    {is : List ι} {s u : σ} {pre tr : List ο} (hs : I pre s)
    (h : exec step is s = some (tr, u)) : I (pre ++ tr) u :=
  exec_invariant_on (p := fun _ => True) (fun tr i s o t _ => hstep tr i s o t)
    (fun _ _ => trivial) hs h

/-- An invariant that holds at the start and is kept by every step holds in every state that
is reached. -/
theorem exec_invariant {I : List ο → σ → Prop}
    (hstep : ∀ tr i s o t, I tr s → step i s = some (o, t) → I (tr ++ o) t)
    {is : List ι} {s u : σ} {tr : List ο} (hs : I [] s)
    (h : exec step is s = some (tr, u)) : I tr u :=
  exec_invariant_from hstep hs h

/-- An invariant of the state alone, when every step meets a condition. -/
theorem exec_keeps_on {I : σ → Prop} {p : ι → Prop}
    (hstep : ∀ i s o t, p i → I s → step i s = some (o, t) → I t) {is : List ι}
    (hp : ∀ i ∈ is, p i) {s u : σ} {tr : List ο} (hs : I s) (h : exec step is s = some (tr, u)) :
    I u := by
  induction is generalizing s tr with
  | nil =>
    cases h
    exact hs
  | cons i is ih =>
    obtain ⟨o, t, tr', hi, hrest, -⟩ := exec_cons_eq_some.mp h
    exact ih (fun j hj => hp j (List.mem_cons_of_mem i hj))
      (hstep i s o t (hp i List.mem_cons_self) hs hi) hrest

/-- An invariant of the state alone. -/
theorem exec_keeps {I : σ → Prop} (hstep : ∀ i s o t, I s → step i s = some (o, t) → I t)
    {is : List ι} {s u : σ} {tr : List ο} (hs : I s) (h : exec step is s = some (tr, u)) : I u :=
  exec_invariant (I := fun _ => I) (fun _ i s o t => hstep i s o t) hs h

/-- Two steps match: both are disabled, or both show the same and lead to corresponding states. -/
def Matches {τ : Type} (f : σ → τ) (I : σ → Prop) (r : Option (List ο × σ))
    (r' : Option (List ο × τ)) : Prop :=
  (r = none ∧ r' = none) ∨ ∃ o t, r = some (o, t) ∧ r' = some (o, f t) ∧ I t

/-- Machines whose steps match have the same runs. -/
theorem exec_of_matches {τ : Type} {step' : ι → τ → Option (List ο × τ)} {f : σ → τ}
    {I : σ → Prop} {p : ι → Prop}
    (hstep : ∀ i s, p i → I s → Matches f I (step i s) (step' i (f s))) {is : List ι}
    (hp : ∀ i ∈ is, p i) {s : σ} (hs : I s) :
    (exec step is s).map (fun r => (r.1, f r.2)) = exec step' is (f s) := by
  induction is generalizing s with
  | nil => rfl
  | cons i is ih =>
    obtain ⟨hi, his⟩ := List.forall_mem_cons.mp hp
    rcases hstep i s hi hs with ⟨hnone, hnone'⟩ | ⟨o, t, hsome, hsome', ht⟩
    · rw [exec, exec, hnone, hnone']
      rfl
    · rw [exec_cons_of_eq hsome, exec_cons_of_eq hsome', ← ih his ht, Option.map_map,
        Option.map_map]
      rfl

/-- When no step shows more events `p` than a balance allows, which only the steps `q` raise, and
only by one, a run shows no more than the steps `q` it takes and the balance it starts with. -/
theorem exec_countP_le {p : ο → Bool} {q : ι → Bool} {balance : σ → Nat}
    (hstep : ∀ i s o t, step i s = some (o, t) →
      o.countP p + balance t ≤ [i].countP q + balance s)
    {is : List ι} {s u : σ} {tr : List ο} (h : exec step is s = some (tr, u)) :
    tr.countP p + balance u ≤ is.countP q + balance s := by
  induction is generalizing s tr with
  | nil =>
    cases h
    exact Nat.le_refl _
  | cons i is ih =>
    obtain ⟨o, t, tr', hi, hr, rfl⟩ := exec_cons_eq_some.mp h
    have hone := hstep i s o t hi
    have hrest := ih hr
    rw [List.countP_append, ← List.singleton_append, List.countP_append]
    omega

/-- A guarded step is a step taken under its condition. -/
theorem guarded_eq_some {C : ι → σ → Prop} [∀ i s, Decidable (C i s)] {i : ι} {s t : σ}
    {o : List ο} : guarded C step i s = some (o, t) ↔ C i s ∧ step i s = some (o, t) := by
  rw [guarded]
  by_cases hC : C i s
  · rw [if_pos hC]
    exact (and_iff_right hC).symm
  · rw [if_neg hC]
    constructor
    · intro h
      cases h
    · exact fun h => absurd h.1 hC

/-- The second state is reached from the first by steps of a kind. -/
def Reaches (step : ι → σ → Option (List ο × σ)) (p : ι → Prop) (s t : σ) : Prop :=
  ∃ is tr, exec step is s = some (tr, t) ∧ ∀ i ∈ is, p i

variable {p : ι → Prop}

/-- One step reaches its end. -/
theorem Reaches.single {i : ι} {s t : σ} {o : List ο} (h : step i s = some (o, t)) (hp : p i) :
    Reaches step p s t :=
  ⟨[i], o ++ [], exec_cons_of_eq h, fun _ hj => List.mem_singleton.mp hj ▸ hp⟩

/-- What is reached from a reached state is reached. -/
theorem Reaches.trans {s t u : σ} (h : Reaches step p s t) (h' : Reaches step p t u) :
    Reaches step p s u := by
  obtain ⟨is, tr, hi, hp⟩ := h
  obtain ⟨js, tr', hj, hp'⟩ := h'
  refine ⟨is ++ js, tr ++ tr', exec_append_eq_some.mpr ⟨t, tr, tr', hi, hj, rfl⟩, fun i hmem => ?_⟩
  rcases List.mem_append.mp hmem with hmem | hmem
  · exact hp i hmem
  · exact hp' i hmem

/-- A step, and what is reached after it. -/
theorem Reaches.cons {i : ι} {s t u : σ} {o : List ο} (h : step i s = some (o, t)) (hp : p i)
    (h' : Reaches step p t u) : Reaches step p s u :=
  (Reaches.single h hp).trans h'

end runs

/-! ## Traces -/

section traces

variable {Φ : List ο → ο → Prop} {tr : List ο} {e : ο}

/-- Every event of a trace is justified by the events before it. -/
def Justified (Φ : List ο → ο → Prop) (tr : List ο) : Prop :=
  ∀ past e after, tr = past ++ e :: after → Φ past e

/-- Nothing needs no justification. -/
theorem justified_nil : Justified Φ [] := by
  intro past e after h
  cases past with
  | nil => cases h
  | cons x past => cases h

/-- In a trace with one more event, an event is the last one or stands in the trace before. -/
theorem concat_eq_append_cons {x : ο} {past after : List ο} :
    tr ++ [e] = past ++ x :: after ↔
      (after = [] ∧ tr = past ∧ e = x) ∨ ∃ mid, after = mid ++ [e] ∧ tr = past ++ x :: mid := by
  constructor
  · intro h
    rcases List.eq_nil_or_concat after with rfl | ⟨mid, y, rfl⟩
    · obtain ⟨htr, he⟩ := List.append_inj' h rfl
      cases he
      exact Or.inl ⟨rfl, htr, rfl⟩
    · rw [List.concat_eq_append] at h ⊢
      rw [← List.cons_append, ← List.append_assoc] at h
      obtain ⟨htr, he⟩ := List.append_inj' h rfl
      cases he
      exact Or.inr ⟨mid, rfl, htr⟩
  · rintro (⟨rfl, rfl, rfl⟩ | ⟨mid, rfl, rfl⟩)
    · rfl
    · rw [List.append_assoc, List.cons_append]

/-- One more event has to be justified by the whole trace before it. -/
theorem Justified.concat (h : Justified Φ tr) (he : Φ tr e) : Justified Φ (tr ++ [e]) := by
  intro past x after heq
  rcases concat_eq_append_cons.mp heq with ⟨-, rfl, rfl⟩ | ⟨mid, -, rfl⟩
  · exact he
  · exact h past x mid rfl

/-- An event that meets a condition stands in one place only when none behind it does. -/
theorem append_cons_unique {p : ο → Bool} {x y : ο} {a a' b b' : List ο}
    (h : a ++ x :: b = a' ++ y :: b') (hx : p x = true) (hy : p y = true)
    (hb : ∀ e ∈ b, p e = false) (hb' : ∀ e ∈ b', p e = false) : a = a' ∧ x = y ∧ b = b' := by
  rcases List.append_eq_append_iff.mp h with ⟨c, rfl, hc⟩ | ⟨c, rfl, hc⟩
  · cases c with
    | nil =>
      cases hc
      exact ⟨(List.append_nil a).symm, rfl, rfl⟩
    | cons z c =>
      cases hc
      rw [hb y (List.mem_append_right c (List.mem_cons_self ..))] at hy
      cases hy
  · cases c with
    | nil =>
      cases hc
      exact ⟨List.append_nil a', rfl, rfl⟩
    | cons z c =>
      cases hc
      rw [hb' x (List.mem_append_right c (List.mem_cons_self ..))] at hx
      cases hx

end traces

end CppImprovement
