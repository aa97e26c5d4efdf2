import Mathlib.Logic.Basic

/-!
# Weakest preconditions of stateful code

Code that reads and writes a state and may stop with a failure is a computation
of `EStateM`. `wp m Q E s` says that running `m` from `s` ends either normally in
a result and state that satisfy `Q`, or stopped in a failure and state that
satisfy `E`. The rules below compute the weakest precondition of every construct
the code uses; the specification of a function is used through `wp_mono`.
-/

namespace CppImprovement

variable {ε σ α β : Type}

/-- Running `m` from `s` establishes `Q` on a normal end and `E` on a failure. -/
def wp (m : EStateM ε σ α) (Q : α → σ → Prop) (E : ε → σ → Prop) (s : σ) : Prop :=
  match m s with
  | .ok a s' => Q a s'
  | .error e s' => E e s'

/-- The state in which a run ends, normally or not. -/
def finalState : EStateM.Result ε σ α → σ
  | .ok _ s => s
  | .error _ s => s

/-- The failure in which a run ends, if it does. -/
def failure : EStateM.Result ε σ α → Option ε
  | .ok _ _ => none
  | .error e _ => some e

/-- A result without a failure is a value. -/
theorem eq_ok_of_failure {r : EStateM.Result ε σ PUnit} (h : failure r = none) :
    r = .ok ⟨⟩ (finalState r) := by
  cases r with
  | ok a s => rfl
  | error e s => cases h

/-- A result with a failure is that failure. -/
theorem eq_error_of_failure {r : EStateM.Result ε σ α} {e : ε} (h : failure r = some e) :
    r = .error e (finalState r) := by
  cases r with
  | ok a s => cases h
  | error e s =>
    cases h
    rfl

section rules

variable {Q : α → σ → Prop} {E : ε → σ → Prop} {s : σ}

@[simp] theorem wp_pure (a : α) : wp (pure a : EStateM ε σ α) Q E s ↔ Q a s := Iff.rfl

@[simp] theorem wp_throw (e : ε) : wp (throw e : EStateM ε σ α) Q E s ↔ E e s := Iff.rfl

@[simp] theorem wp_get {Q : σ → σ → Prop} : wp (get : EStateM ε σ σ) Q E s ↔ Q s s := Iff.rfl

@[simp] theorem wp_modify {Q : PUnit → σ → Prop} (f : σ → σ) :
    wp (modify f : EStateM ε σ PUnit) Q E s ↔ Q ⟨⟩ (f s) := Iff.rfl

@[simp] theorem wp_modifyGet (f : σ → α × σ) :
    wp (modifyGet f : EStateM ε σ α) Q E s ↔ Q (f s).1 (f s).2 := Iff.rfl

@[simp] theorem wp_bind {Q : β → σ → Prop} (m : EStateM ε σ α) (f : α → EStateM ε σ β) :
    wp (m >>= f) Q E s ↔ wp m (fun a s' => wp (f a) Q E s') E s := by
  change (match EStateM.bind m f s with | .ok a s' => Q a s' | .error e s' => E e s') ↔ _
  rw [EStateM.bind, wp]
  cases m s with
  | ok a s' => exact Iff.rfl
  | error e s' => exact Iff.rfl

@[simp] theorem wp_map {Q : β → σ → Prop} (f : α → β) (m : EStateM ε σ α) :
    wp (f <$> m) Q E s ↔ wp m (fun a s' => Q (f a) s') E s := by
  change (match EStateM.map f m s with | .ok a s' => Q a s' | .error e s' => E e s') ↔ _
  rw [EStateM.map, wp]
  cases m s with
  | ok a s' => exact Iff.rfl
  | error e s' => exact Iff.rfl

@[simp] theorem wp_ite (c : Prop) [Decidable c] (m m' : EStateM ε σ α) :
    wp (if c then m else m') Q E s ↔ if c then wp m Q E s else wp m' Q E s := by
  by_cases h : c
  · rw [if_pos h, if_pos h]
  · rw [if_neg h, if_neg h]

/-- The specification of a computation serves every weaker postcondition. -/
theorem wp_mono {Q' : α → σ → Prop} {E' : ε → σ → Prop} {m : EStateM ε σ α}
    (h : wp m Q E s) (hQ : ∀ a s', Q a s' → Q' a s') (hE : ∀ e s', E e s' → E' e s') :
    wp m Q' E' s := by
  rw [wp] at h ⊢
  cases hm : m s with
  | ok a s' =>
    rw [hm] at h
    exact hQ a s' h
  | error e s' =>
    rw [hm] at h
    exact hE e s' h

/-- Two specifications of one computation hold together. -/
theorem wp_and {Q' : α → σ → Prop} {E' : ε → σ → Prop} {m : EStateM ε σ α}
    (h : wp m Q E s) (h' : wp m Q' E' s) :
    wp m (fun a s' => Q a s' ∧ Q' a s') (fun e s' => E e s' ∧ E' e s') s := by
  rw [wp] at h h' ⊢
  cases hm : m s with
  | ok a s' =>
    rw [hm] at h h'
    exact ⟨h, h'⟩
  | error e s' =>
    rw [hm] at h h'
    exact ⟨h, h'⟩

/-- What a known value gives. -/
theorem wp_of_eq_ok {m : EStateM ε σ α} {a : α} {s' : σ} (h : m s = .ok a s') :
    wp m Q E s ↔ Q a s' := by
  rw [wp, h]

/-- What a known failure gives. -/
theorem wp_of_eq_error {m : EStateM ε σ α} {e : ε} {s' : σ} (h : m s = .error e s') :
    wp m Q E s ↔ E e s' := by
  rw [wp, h]

/-- Code that must not fail has a value. -/
theorem exists_ok_of_wp {m : EStateM ε σ α} (h : wp m Q (fun _ _ => False) s) :
    ∃ a s', m s = .ok a s' ∧ Q a s' := by
  rw [wp] at h
  cases hm : m s with
  | ok a s' =>
    rw [hm] at h
    exact ⟨a, s', rfl, h⟩
  | error e s' =>
    rw [hm] at h
    exact h.elim

/-- Code that must fail has a failure. -/
theorem exists_error_of_wp {m : EStateM ε σ α} (h : wp m (fun _ _ => False) E s) :
    ∃ e s', m s = .error e s' ∧ E e s' := by
  rw [wp] at h
  cases hm : m s with
  | ok a s' =>
    rw [hm] at h
    exact h.elim
  | error e s' =>
    rw [hm] at h
    exact ⟨e, s', rfl, h⟩

/-- A run that cannot fail and whose result and end state are known. -/
theorem eq_ok_of_wp {m : EStateM ε σ α} {a : α} {s' : σ}
    (h : wp m (fun b t => b = a ∧ t = s') (fun _ _ => False) s) : m s = .ok a s' := by
  obtain ⟨b, t, hm, rfl, rfl⟩ := exists_ok_of_wp h
  exact hm

/-- A run that is known to fail, with its failure and end state. -/
theorem eq_error_of_wp {m : EStateM ε σ α} {e : ε} {s' : σ}
    (h : wp m (fun _ _ => False) (fun f t => f = e ∧ t = s') s) : m s = .error e s' := by
  obtain ⟨f, t, hm, rfl, rfl⟩ := exists_error_of_wp h
  exact hm

end rules

/-- Runs that meet the same specifications end in the same way. -/
theorem eq_of_wp {m n : EStateM ε σ α} {s t : σ} (h : ∀ Q E, wp m Q E s → wp n Q E t) :
    m s = n t := by
  cases hm : m s with
  | ok a s' =>
    have hn := h (fun b u => b = a ∧ u = s') (fun _ _ => False) ((wp_of_eq_ok hm).mpr ⟨rfl, rfl⟩)
    exact (eq_ok_of_wp hn).symm
  | error e s' =>
    have hn := h (fun _ _ => False) (fun f u => f = e ∧ u = s')
      ((wp_of_eq_error hm).mpr ⟨rfl, rfl⟩)
    exact (eq_error_of_wp hn).symm

/-- Code that runs alike has the same weakest precondition. -/
theorem wp_congr {m n : EStateM ε σ α} {Q : α → σ → Prop} {E : ε → σ → Prop} {s t : σ}
    (h : m s = n t) : wp m Q E s ↔ wp n Q E t := by
  rw [wp, wp, h]

theorem get_bind (f : σ → EStateM ε σ α) (s : σ) : (get >>= f) s = f s s := rfl

/-- A computation continued from the end of a first part that is known. -/
theorem bind_eq_of_ok {m : EStateM ε σ α} {f : α → EStateM ε σ β} {a : α} {s s' : σ}
    (h : m s = .ok a s') : (m >>= f) s = f a s' := by
  change EStateM.bind m f s = f a s'
  rw [EStateM.bind, h]

/-- A computation whose first part fails. -/
theorem bind_eq_of_error {m : EStateM ε σ α} {f : α → EStateM ε σ β} {e : ε} {s s' : σ}
    (h : m s = .error e s') : (m >>= f) s = .error e s' := by
  change EStateM.bind m f s = .error e s'
  rw [EStateM.bind, h]

/-- A computation whose first part runs like another's. -/
theorem bind_eq_of_eq {m n : EStateM ε σ α} {f : α → EStateM ε σ β} {s t : σ} (h : m s = n t) :
    (m >>= f) s = (n >>= f) t := by
  change EStateM.bind m f s = EStateM.bind n f t
  rw [EStateM.bind, EStateM.bind, h]

/-- A property of the state that holds at the end of a run however it ends. -/
theorem wp_final {m : EStateM ε σ α} {I : σ → Prop} {s : σ} :
    wp m (fun _ => I) (fun _ => I) s ↔ I (finalState (m s)) := by
  rw [wp]
  cases m s with
  | ok a s' => exact Iff.rfl
  | error e s' => exact Iff.rfl

/-- An invariant of code that must not fail holds at its end. -/
theorem final_of_wp {m : EStateM ε σ α} {I : σ → Prop} {s : σ}
    (h : wp m (fun _ => I) (fun _ _ => False) s) : I (finalState (m s)) :=
  wp_final.mp (wp_mono h (fun _ _ hI => hI) fun _ _ hn => hn.elim)

/-! ## Progress relations -/

/-- Every end state of `m`, normal or failed, is related to the state it started from, and a
failure is one of `T`. -/
def Moves (R : σ → σ → Prop) (T : ε → Prop) (m : EStateM ε σ α) (s : σ) : Prop :=
  wp m (fun _ => R s) (fun e t => R s t ∧ T e) s

section moves

variable {R : σ → σ → Prop} {T : ε → Prop}

/-- A value changes nothing. -/
theorem moves_pure (refl : ∀ s, R s s) (a : α) (s : σ) :
    Moves R T (pure a : EStateM ε σ α) s := refl s

/-- A failure that is allowed changes nothing. -/
theorem moves_throw (refl : ∀ s, R s s) {e : ε} (he : T e) (s : σ) :
    Moves R T (throw e : EStateM ε σ α) s := ⟨refl s, he⟩

/-- Reading the state changes nothing. -/
theorem moves_get_bind {f : σ → EStateM ε σ β} {s : σ} (h : Moves R T (f s) s) :
    Moves R T (get >>= f) s := by
  rw [Moves, wp_bind]
  exact h

/-- More failures may be allowed. -/
theorem Moves.imp_fail {T' : ε → Prop} {m : EStateM ε σ α} {s : σ} (hm : Moves R T m s)
    (h : ∀ e, T e → T' e) : Moves R T' m s :=
  wp_mono hm (fun _ _ ht => ht) (fun e _ ht => ⟨ht.1, h e ht.2⟩)

/-- A step may be described more loosely. -/
theorem Moves.imp {R' : σ → σ → Prop} {m : EStateM ε σ α} {s : σ} (hm : Moves R T m s)
    (h : ∀ t, R s t → R' s t) : Moves R' T m s :=
  wp_mono hm (fun _ t ht => h t ht) (fun _ t ht => ⟨h t ht.1, ht.2⟩)

/-- A run continued from a state it has reached. -/
theorem Moves.after (trans : ∀ a b c, R a b → R b c → R a c) {m : EStateM ε σ α} {s s' : σ}
    (h : R s s') (hm : Moves R T m s') :
    wp m (fun _ => R s) (fun e t => R s t ∧ T e) s' :=
  wp_mono hm (fun _ _ ht => trans _ _ _ h ht) (fun _ _ ht => ⟨trans _ _ _ h ht.1, ht.2⟩)

/-- Running two computations in a row composes their progress. -/
theorem moves_bind (trans : ∀ a b c, R a b → R b c → R a c) {m : EStateM ε σ α}
    {f : α → EStateM ε σ β} {s : σ} (hm : Moves R T m s)
    (hf : ∀ a s', R s s' → Moves R T (f a) s') : Moves R T (m >>= f) s := by
  rw [Moves, wp_bind]
  exact wp_mono hm (fun a s' h => (hf a s' h).after trans h) (fun _ _ h => h)

/-- A change and what follows it, when both are related. -/
theorem moves_modify_bind (trans : ∀ a b c, R a b → R b c → R a c) {f : σ → σ}
    {k : PUnit → EStateM ε σ β} {s : σ} (hf : R s (f s)) (hk : Moves R T (k ⟨⟩) (f s)) :
    Moves R T (modify f >>= k) s := by
  rw [Moves, wp_bind, wp_modify]
  exact hk.after trans hf

/-- Both branches are related. -/
theorem moves_ite {c : Prop} [Decidable c] {m m' : EStateM ε σ α} {s : σ}
    (h : c → Moves R T m s) (h' : ¬ c → Moves R T m' s) : Moves R T (if c then m else m') s := by
  by_cases hc : c
  · rw [if_pos hc]
    exact h hc
  · rw [if_neg hc]
    exact h' hc

end moves

/-! ## Runs over a list of inputs -/

/-- Perform the step of every input in turn, until one fails. -/
def runAll (step : β → EStateM ε σ PUnit) : List β → EStateM ε σ PUnit
  | [] => pure ⟨⟩
  | i :: is => do
    step i
    runAll step is

/-- A run takes its first input first. -/
theorem runAll_cons (step : β → EStateM ε σ PUnit) (i : β) (is : List β) :
    runAll step (i :: is) = (step i >>= fun _ => runAll step is) := rfl

/-- A run of two lists runs the one and then the other. -/
theorem runAll_append (step : β → EStateM ε σ PUnit) (is js : List β) (s : σ) :
    runAll step (is ++ js) s = (runAll step is >>= fun _ => runAll step js) s := by
  induction is generalizing s with
  | nil => rfl
  | cons i is ih =>
    change EStateM.bind (step i) (fun _ => runAll step (is ++ js)) s =
      EStateM.bind (EStateM.bind (step i) fun _ => runAll step is) _ s
    rw [EStateM.bind, EStateM.bind, EStateM.bind]
    cases step i s with
    | ok a s' => exact ih s'
    | error e s' => rfl

/-- The progress of every step is the progress of a run. -/
theorem moves_runAll {R : σ → σ → Prop} {T : ε → Prop} (refl : ∀ s, R s s)
    (trans : ∀ a b c, R a b → R b c → R a c) {step : β → EStateM ε σ PUnit}
    (h : ∀ i s, Moves R T (step i) s) (is : List β) (s : σ) : Moves R T (runAll step is) s := by
  induction is generalizing s with
  | nil => exact refl s
  | cons i is ih => exact moves_bind trans (h i s) fun _ s' _ => ih s'

/-- Every step of the run is taken in a state that meets the condition for its input. -/
def Along (C : β → σ → Prop) (step : β → EStateM ε σ PUnit) : List β → σ → Prop
  | [], _ => True
  | i :: is, s => C i s ∧ ∀ s', step i s = .ok ⟨⟩ s' → Along C step is s'

/-- Two conditions along a run are one. -/
theorem Along.and {C D : β → σ → Prop} {step : β → EStateM ε σ PUnit} {is : List β} {s : σ}
    (h : Along C step is s) (h' : Along D step is s) :
    Along (fun i s => C i s ∧ D i s) step is s := by
  induction is generalizing s with
  | nil => trivial
  | cons i is ih => exact ⟨⟨h.1, h'.1⟩, fun s' hs => ih (h.2 s' hs) (h'.2 s' hs)⟩

/-- A condition on the inputs alone. -/
theorem along_of_forall {P : β → Prop} {step : β → EStateM ε σ PUnit} {is : List β}
    (h : ∀ i ∈ is, P i) (s : σ) : Along (fun i _ => P i) step is s := by
  induction is generalizing s with
  | nil => trivial
  | cons i is ih =>
    obtain ⟨hi, his⟩ := List.forall_mem_cons.mp h
    exact ⟨hi, fun s' _ => ih his s'⟩

/-- The condition along a run can be evaluated. -/
instance decidableAlong (C : β → σ → Prop) [∀ i s, Decidable (C i s)]
    (step : β → EStateM ε σ PUnit) : ∀ is s, Decidable (Along C step is s)
  | [], _ => isTrue trivial
  | i :: is, s =>
    match hm : step i s with
    | .ok _ s' =>
      have := decidableAlong C step is s'
      decidable_of_iff (C i s ∧ Along C step is s') (by
        rw [Along]
        refine and_congr_right fun _ => ⟨fun h t ht => ?_, fun h => h s' hm⟩
        rw [hm] at ht
        cases ht
        exact h)
    | .error _ _ => decidable_of_iff (C i s) (by
        rw [Along, and_iff_left]
        intro t ht
        rw [hm] at ht
        cases ht)

/-- An invariant that every step keeps under the condition holds at the end of every run that
meets it; `E` collects what is known when a step fails. -/
theorem wp_runAll {I : σ → Prop} {E : ε → σ → Prop} {C : β → σ → Prop}
    {step : β → EStateM ε σ PUnit}
    (h : ∀ i s, I s → C i s → wp (step i) (fun _ => I) E s) {is : List β} {s : σ}
    (hs : I s) (hC : Along C step is s) : wp (runAll step is) (fun _ => I) E s := by
  induction is generalizing s with
  | nil => exact hs
  | cons i is ih =>
    obtain ⟨hi, hrest⟩ := hC
    have hstep := h i s hs hi
    rw [runAll_cons, wp_bind]
    rw [wp] at hstep ⊢
    cases hm : step i s with
    | ok a s' =>
      rw [hm] at hstep
      exact ih hstep (hrest s' hm)
    | error e s' =>
      rw [hm] at hstep
      exact hstep

end CppImprovement
