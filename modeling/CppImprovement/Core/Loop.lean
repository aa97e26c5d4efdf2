import CppImprovement.Core.Effect

/-!
# Loops

A loop performs its body until the body asks to stop or fails. `LoopEnds` is the loop itself,
without any bound; `LoopHead` lists the states in which the body is performed. A loop whose body
lowers a measure ends, and the same loop with a bound above the measure is no different from it.
-/

namespace CppImprovement

variable {ε σ : Type} {body : EStateM ε σ Bool} {s u v : σ}

/-- The loop with a bound on the number of rounds. -/
def loopN (body : EStateM ε σ Bool) : Nat → EStateM ε σ PUnit
  | 0 => pure ⟨⟩
  | n + 1 => do
    if (← body) = true then
      loopN body n
    else
      pure ⟨⟩

/-- From `s` the loop performs its body `k` times and ends with the result `r`. -/
inductive LoopEnds (body : EStateM ε σ Bool) : σ → Nat → EStateM.Result ε σ PUnit → Prop
  | fails {s s' : σ} {e : ε} : body s = .error e s' → LoopEnds body s 1 (.error e s')
  | stops {s s' : σ} : body s = .ok false s' → LoopEnds body s 1 (.ok ⟨⟩ s')
  | again {s s' : σ} {k : Nat} {r : EStateM.Result ε σ PUnit} :
      body s = .ok true s' → LoopEnds body s' k r → LoopEnds body s (k + 1) r

/-- The body is performed in `u` when the loop is entered in `s`. -/
inductive LoopHead (body : EStateM ε σ Bool) (s : σ) : σ → Prop
  | start : LoopHead body s s
  | again {u v : σ} : LoopHead body s u → body u = .ok true v → LoopHead body s v

/-- A body that lowers a measure whenever it goes round again makes a loop that ends. -/
theorem loopEnds_of_measure (μ : σ → Nat) (h : ∀ u v, body u = .ok true v → μ v < μ u) (s : σ) :
    ∃ k r, k ≤ μ s + 1 ∧ LoopEnds body s k r := by
  generalize hμ : μ s = n
  induction n using Nat.strongRecOn generalizing s with
  | ind n ih =>
    cases hb : body s with
    | error e s' => exact ⟨1, _, by omega, .fails hb⟩
    | ok goOn s' =>
      cases goOn with
      | false => exact ⟨1, _, by omega, .stops hb⟩
      | true =>
        have hlt := h s s' hb
        obtain ⟨k, r, hk, hr⟩ := ih (μ s') (by omega) s' rfl
        exact ⟨k + 1, r, by omega, .again hb hr⟩

/-- A bound that the loop does not reach makes no difference. -/
theorem LoopEnds.loopN_eq {k n : Nat} {r : EStateM.Result ε σ PUnit} (h : LoopEnds body s k r)
    (hn : k ≤ n) : loopN body n s = r := by
  induction h generalizing n with
  | fails hb =>
    obtain ⟨m, rfl⟩ : ∃ m, n = m + 1 := ⟨n - 1, by omega⟩
    exact bind_eq_of_error hb
  | stops hb =>
    obtain ⟨m, rfl⟩ : ∃ m, n = m + 1 := ⟨n - 1, by omega⟩
    exact bind_eq_of_ok hb
  | again hb _ ih =>
    obtain ⟨m, rfl⟩ : ∃ m, n = m + 1 := ⟨n - 1, by omega⟩
    exact (bind_eq_of_ok hb).trans (ih (by omega))

/-- What holds where the loop is entered, and is kept by every round, holds wherever the body is
performed. -/
theorem LoopHead.invariant {I : σ → Prop} (h : LoopHead body s u) (h0 : I s)
    (hstep : ∀ u v, I u → body u = .ok true v → I v) : I u := by
  induction h with
  | start => exact h0
  | again _ hb ih => exact hstep _ _ ih hb

/-- The first round, and the rest. -/
theorem LoopHead.first (h : LoopHead body s u) :
    u = s ∨ ∃ t, body s = .ok true t ∧ LoopHead body t u := by
  induction h with
  | start => exact Or.inl rfl
  | again _ hb ih =>
    rcases ih with rfl | ⟨t, ht, hu⟩
    · exact Or.inr ⟨_, hb, .start⟩
    · exact Or.inr ⟨t, ht, .again hu hb⟩

theorem LoopHead.after {t : σ} (h : LoopHead body t u) (hb : body s = .ok true t) :
    LoopHead body s u := by
  induction h with
  | start => exact .again .start hb
  | again _ hv ih => exact .again ih hv

/-- A loop that ends normally stops in the last state in which its body is performed. -/
theorem LoopEnds.last {k : Nat} {s' : σ} (h : LoopEnds body s k (.ok ⟨⟩ s')) :
    ∃ u, LoopHead body s u ∧ body u = .ok false s' := by
  generalize hr : (EStateM.Result.ok ⟨⟩ s' : EStateM.Result ε σ PUnit) = r at h
  induction h with
  | fails hb => cases hr
  | stops hb =>
    cases hr
    exact ⟨_, .start, hb⟩
  | again hb _ ih =>
    obtain ⟨u, hu, hstop⟩ := ih hr
    exact ⟨u, hu.after hb, hstop⟩

end CppImprovement
