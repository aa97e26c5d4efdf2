import CppImprovement.Core.Effect

/-!
# Two runs side by side

`Sim R E m m' s t` says that running `m` from `s` and `m'` from `t` ends alike: both
normally with one result and in states related by `R`, or both in one failure and
in states related by `E`. The rules follow the constructs of the code, so that a
function that treats related states alike is shown to do so along its text.
-/

namespace CppImprovement

variable {ε σ τ α β : Type}

/-- Two runs end alike, in related states. -/
def Sim (R E : σ → τ → Prop) (m : EStateM ε σ α) (m' : EStateM ε τ α) (s : σ) (t : τ) : Prop :=
  wp m (fun a s' => wp m' (fun b t' => a = b ∧ R s' t') (fun _ _ => False) t)
    (fun e s' => wp m' (fun _ _ => False) (fun f t' => e = f ∧ E s' t') t) s

section rules

variable {R E : σ → τ → Prop} {s : σ} {t : τ}

/-- The same value on both sides. -/
theorem sim_pure (h : R s t) (a : α) :
    Sim R E (pure a : EStateM ε σ α) (pure a) s t := ⟨rfl, h⟩

/-- The same failure on both sides. -/
theorem sim_throw (h : E s t) (e : ε) :
    Sim R E (throw e : EStateM ε σ α) (throw e) s t := ⟨rfl, h⟩

/-- A change on both sides. -/
theorem sim_modify {f : σ → σ} {g : τ → τ} (h : R (f s) (g t)) :
    Sim R E (modify f : EStateM ε σ PUnit) (modify g) s t := ⟨rfl, h⟩

/-- A change on both sides with the same value. -/
theorem sim_modifyGet {f : σ → α × σ} {g : τ → α × τ} (ha : (f s).1 = (g t).1)
    (h : R (f s).2 (g t).2) : Sim R E (modifyGet f : EStateM ε σ α) (modifyGet g) s t := ⟨ha, h⟩

/-- Related ends are related in every weaker way. -/
theorem Sim.mono {R' E' : σ → τ → Prop} {m : EStateM ε σ α} {m' : EStateM ε τ α}
    (h : Sim R E m m' s t) (hR : ∀ s' t', R s' t' → R' s' t')
    (hE : ∀ s' t', E s' t' → E' s' t') : Sim R' E' m m' s t := by
  refine wp_mono h (fun a s' ha => ?_) (fun e s' he => ?_)
  · exact wp_mono ha (fun b t' hb => ⟨hb.1, hR s' t' hb.2⟩) (fun _ _ hf => hf)
  · exact wp_mono he (fun _ _ hf => hf) (fun f t' hf => ⟨hf.1, hE s' t' hf.2⟩)

/-- What is known of the first run alone holds beside what is known of both. -/
theorem Sim.and_left {P P' : σ → Prop} {m : EStateM ε σ α} {m' : EStateM ε τ α}
    (h : Sim R E m m' s t) (hm : wp m (fun _ => P) (fun _ => P') s) :
    Sim (fun s' t' => R s' t' ∧ P s') (fun s' t' => E s' t' ∧ P' s') m m' s t := by
  refine wp_mono (wp_and h hm) (fun a s' ha => ?_) (fun e s' he => ?_)
  · exact wp_mono ha.1 (fun b t' hb => ⟨hb.1, hb.2, ha.2⟩) (fun _ _ hf => hf)
  · exact wp_mono he.1 (fun _ _ hf => hf) (fun f t' hf => ⟨hf.1, hf.2, he.2⟩)

/-- What is known of the second run alone holds beside what is known of both. -/
theorem Sim.and_right {P P' : τ → Prop} {m : EStateM ε σ α} {m' : EStateM ε τ α}
    (h : Sim R E m m' s t) (hm : wp m' (fun _ => P) (fun _ => P') t) :
    Sim (fun s' t' => R s' t' ∧ P t') (fun s' t' => E s' t' ∧ P' t') m m' s t := by
  refine wp_mono h (fun a s' ha => ?_) (fun e s' he => ?_)
  · exact wp_mono (wp_and ha hm) (fun b t' hb => ⟨hb.1.1, hb.1.2, hb.2⟩) (fun _ _ hf => hf.1)
  · exact wp_mono (wp_and he hm) (fun _ _ hf => hf.1) (fun f t' hf => ⟨hf.1.1, hf.1.2, hf.2⟩)

/-- Runs that end alike are continued alike. -/
theorem sim_bind {R' : σ → τ → Prop} {m : EStateM ε σ α} {m' : EStateM ε τ α}
    {f : α → EStateM ε σ β} {g : α → EStateM ε τ β} (hm : Sim R' E m m' s t)
    (hf : ∀ a s' t', R' s' t' → Sim R E (f a) (g a) s' t') :
    Sim R E (m >>= f) (m' >>= g) s t := by
  rw [Sim, wp_bind]
  refine wp_mono hm (fun a s' ha => ?_) (fun e s' he => ?_)
  · obtain ⟨b, t', ht, rfl, hR⟩ := exists_ok_of_wp ha
    simp only [wp_bind, wp_of_eq_ok ht]
    exact hf a s' t' hR
  · obtain ⟨f, t', ht, rfl, hE⟩ := exists_error_of_wp he
    simp only [wp_bind, wp_of_eq_error ht]
    exact ⟨trivial, hE⟩

/-- Runs that stop in one failure end alike, whatever was to follow. -/
theorem sim_bind_error {m : EStateM ε σ α} {m' : EStateM ε τ α} {f : α → EStateM ε σ β}
    {g : α → EStateM ε τ β} {e : ε} (hm : m s = .error e s) (hm' : m' t = .error e t)
    (hE : E s t) : Sim R E (m >>= f) (m' >>= g) s t := by
  rw [Sim, wp_bind, wp_of_eq_error hm, wp_bind, wp_of_eq_error hm']
  exact ⟨rfl, hE⟩

/-- Both sides read their state. -/
theorem sim_get_bind {f : σ → EStateM ε σ β} {g : τ → EStateM ε τ β}
    (h : Sim R E (f s) (g t) s t) : Sim R E (get >>= f) (get >>= g) s t := h

/-- Both sides change their state and go on. -/
theorem sim_modify_bind {u : σ → σ} {v : τ → τ} {f : PUnit → EStateM ε σ β}
    {g : PUnit → EStateM ε τ β} (h : Sim R E (f ⟨⟩) (g ⟨⟩) (u s) (v t)) :
    Sim R E (modify u >>= f) (modify v >>= g) s t := h

/-- The first run takes a step of its own. -/
theorem sim_left {m n : EStateM ε σ α} {m' : EStateM ε τ α} {s₀ : σ} (heq : m s = n s₀)
    (h : Sim R E n m' s₀ t) : Sim R E m m' s t := by
  rw [Sim, wp] at h ⊢
  rw [heq]
  exact h

/-- The second run takes a step of its own. -/
theorem sim_right {m : EStateM ε σ α} {m' n : EStateM ε τ α} {u : τ} (heq : m' t = n u)
    (h : Sim R E m n s u) : Sim R E m m' s t := by
  simp only [Sim, wp, heq] at h ⊢
  exact h

/-- A test with one outcome in both runs. -/
theorem sim_ite {c c' : Prop} [Decidable c] [Decidable c'] {m n : EStateM ε σ α}
    {m' n' : EStateM ε τ α} (hc : c ↔ c') (h : c → Sim R E m m' s t)
    (h' : ¬ c → Sim R E n n' s t) :
    Sim R E (if c then m else n) (if c' then m' else n') s t := by
  by_cases hn : c
  · rw [if_pos hn, if_pos (hc.mp hn)]
    exact h hn
  · rw [if_neg hn, if_neg fun h => hn (hc.mpr h)]
    exact h' hn

/-- Steps that end alike make runs that end alike. -/
theorem sim_runAll {step : β → EStateM ε σ PUnit} {step' : β → EStateM ε τ PUnit} {is : List β}
    (h : ∀ i ∈ is, ∀ s t, R s t → Sim R E (step i) (step' i) s t) (hR : R s t) :
    Sim R E (runAll step is) (runAll step' is) s t := by
  induction is generalizing s t with
  | nil => exact sim_pure hR _
  | cons i is ih =>
    refine sim_bind (h i List.mem_cons_self s t hR) fun _ s' t' hR' => ?_
    exact ih (fun j hj => h j (List.mem_cons_of_mem _ hj)) hR'

/-- A run that ends like one that cannot fail does not fail, and is related to its end. -/
theorem Sim.wp_left {P : τ → Prop} {m : EStateM ε σ α} {m' : EStateM ε τ α}
    (h : Sim R E m m' s t) (hm : wp m' (fun _ => P) (fun _ _ => False) t) :
    wp m (fun _ s' => ∃ t', R s' t' ∧ P t') (fun _ _ => False) s := by
  refine wp_mono h (fun a s' ha => ?_) (fun e s' he => ?_)
  · obtain ⟨b, t', ht, -, hR⟩ := exists_ok_of_wp ha
    exact ⟨t', hR, (wp_of_eq_ok ht).mp hm⟩
  · obtain ⟨f, t', ht, -⟩ := exists_error_of_wp he
    exact (wp_of_eq_error ht).mp hm

/-- The states in which two runs end are related. -/
theorem Sim.final {m : EStateM ε σ α} {m' : EStateM ε τ α} (h : Sim R R m m' s t) :
    R (finalState (m s)) (finalState (m' t)) := by
  refine (wp_final (I := fun s' => R s' (finalState (m' t)))).mp (wp_mono h ?_ ?_)
  · intro a s' ha
    obtain ⟨b, t', ht, -, hR⟩ := exists_ok_of_wp ha
    rw [ht]
    exact hR
  · intro e s' he
    obtain ⟨f, t', ht, -, hR⟩ := exists_error_of_wp he
    rw [ht]
    exact hR

end rules

/-! ## Runs that may part -/

variable {ω : Type}

/-- From `s` on, `m` stays in `P` as long as it goes on, and nothing of it is observed. -/
def Unseen (P : σ → Prop) (obs : σ → ω) (m : EStateM ε σ α) (s : σ) : Prop :=
  wp m (fun _ s' => P s' ∧ obs s' = obs s) (fun _ s' => obs s' = obs s) s

/-- Two runs end alike, unless they part: then both have been observed to do the same, and
whichever goes on does so in `P`. -/
def SimUnless (P : σ → Prop) (obs : σ → ω) (R : σ → σ → Prop) (m m' : EStateM ε σ α) (s t : σ) :
    Prop :=
  Sim R (fun s' t' => obs s' = obs t') m m' s t ∨
    obs (finalState (m s)) = obs (finalState (m' t)) ∧
      wp m (fun _ => P) (fun _ _ => True) s ∧ wp m' (fun _ => P) (fun _ _ => True) t

section parting

variable {P : σ → Prop} {obs : σ → ω} {R : σ → σ → Prop} {s t : σ}

/-- Sides that agree agree unless they part. -/
theorem Sim.simUnless {m m' : EStateM ε σ α}
    (h : Sim R (fun s' t' => obs s' = obs t') m m' s t) : SimUnless P obs R m m' s t := Or.inl h

/-- Runs that end alike, by the states in which they end. -/
theorem Sim.simUnless_of {R' E : σ → σ → Prop} {m m' : EStateM ε σ α} (h : Sim R E m m' s t)
    (hR : ∀ s' t', R s' t' → R' s' t' ∨ obs s' = obs t' ∧ P s' ∧ P t')
    (hE : ∀ s' t', E s' t' → obs s' = obs t') : SimUnless P obs R' m m' s t := by
  rw [Sim, wp] at h
  cases hm : m s with
  | ok a s' =>
    rw [hm] at h
    obtain ⟨b, t', ht, hab, hrel⟩ := exists_ok_of_wp h
    rw [SimUnless, Sim, wp_of_eq_ok hm, wp_of_eq_ok ht, wp_of_eq_ok hm, wp_of_eq_ok ht, hm, ht]
    exact (hR s' t' hrel).imp_left fun h => ⟨hab, h⟩
  | error e s' =>
    rw [hm] at h
    obtain ⟨f, t', ht, hab, hrel⟩ := exists_error_of_wp h
    refine Or.inl ?_
    rw [Sim, wp_of_eq_error hm, wp_of_eq_error ht]
    exact ⟨hab, hE s' t' hrel⟩

/-- Runs whose ends are known, where they part. -/
theorem simUnless_of_ok {m m' : EStateM ε σ α} {a b : α} {s' t' : σ} (hm : m s = .ok a s')
    (hm' : m' t = .ok b t') (hs : P s') (ht : P t') (h : obs s' = obs t') :
    SimUnless P obs R m m' s t := by
  refine Or.inr ⟨?_, (wp_of_eq_ok hm).mpr hs, (wp_of_eq_ok hm').mpr ht⟩
  rw [hm, hm']
  exact h

/-- Agreement may be described more loosely. -/
theorem SimUnless.mono {R' : σ → σ → Prop} {m m' : EStateM ε σ α}
    (h : SimUnless P obs R m m' s t) (hR : ∀ s' t', R s' t' → R' s' t') :
    SimUnless P obs R' m m' s t :=
  h.imp_left fun h => h.mono hR fun _ _ h => h

/-- Both runs take steps of their own. -/
theorem SimUnless.of_eq {m n m' n' : EStateM ε σ α} {u v : σ} (h : SimUnless P obs R n n' u v)
    (hm : m s = n u) (hm' : m' t = n' v) : SimUnless P obs R m m' s t := by
  refine h.imp (fun h => sim_left hm (sim_right hm' h)) fun h => ?_
  rw [hm, hm']
  exact ⟨h.1, (wp_congr hm).mpr h.2.1, (wp_congr hm').mpr h.2.2⟩

/-- What is known of the first run alone holds beside what is known of both. -/
theorem SimUnless.and_left {Q : σ → Prop} {m m' : EStateM ε σ α} (h : SimUnless P obs R m m' s t)
    (hm : wp m (fun _ => Q) (fun _ _ => True) s) :
    SimUnless P obs (fun s' t' => R s' t' ∧ Q s') m m' s t :=
  h.imp (fun hs => (hs.and_left hm).mono (fun _ _ hr => hr) fun _ _ he => he.1) id

/-- Both sides read their state. -/
theorem simUnless_get_bind {f g : σ → EStateM ε σ β} (h : SimUnless P obs R (f s) (g t) s t) :
    SimUnless P obs R (get >>= f) (get >>= g) s t := h

/-- Both sides change their state and go on. -/
theorem simUnless_modify_bind {u v : σ → σ} {f g : PUnit → EStateM ε σ β}
    (h : SimUnless P obs R (f ⟨⟩) (g ⟨⟩) (u s) (v t)) :
    SimUnless P obs R (modify u >>= f) (modify v >>= g) s t := h

/-- Both sides take the same branch. -/
theorem simUnless_ite {c c' : Prop} [Decidable c] [Decidable c'] {m n m' n' : EStateM ε σ α}
    (hc : c ↔ c') (h : c → SimUnless P obs R m m' s t) (h' : ¬ c → SimUnless P obs R n n' s t) :
    SimUnless P obs R (if c then m else n) (if c' then m' else n') s t := by
  by_cases hn : c
  · rw [if_pos hn, if_pos (hc.mp hn)]
    exact h hn
  · rw [if_neg hn, if_neg fun h => hn (hc.mpr h)]
    exact h' hn

/-- A run that has parted from another is continued unseen. -/
theorem Unseen.bind {m : EStateM ε σ α} {f : α → EStateM ε σ β}
    (hm : wp m (fun _ => P) (fun _ _ => True) s) (hf : ∀ a u, P u → Unseen P obs (f a) u) :
    obs (finalState ((m >>= f) s)) = obs (finalState (m s)) ∧
      wp (m >>= f) (fun _ => P) (fun _ _ => True) s := by
  rw [wp_bind]
  cases hs : m s with
  | ok a s' =>
    have hP : P s' := (wp_of_eq_ok hs).mp hm
    rw [bind_eq_of_ok hs, wp_of_eq_ok hs]
    refine ⟨(wp_final (I := fun u => obs u = obs s')).mp ?_, ?_⟩
    · exact wp_mono (hf a s' hP) (fun _ _ h => h.2) fun _ _ h => h
    · exact wp_mono (hf a s' hP) (fun _ _ h => h.1) fun _ _ _ => trivial
  | error e s' =>
    rw [wp_of_eq_error hs]
    refine ⟨?_, trivial⟩
    change obs (finalState (EStateM.bind m f s)) = _
    rw [EStateM.bind, hs]
    rfl

/-- Sides that agree, and go on unseen where they part. -/
theorem simUnless_bind {R' : σ → σ → Prop} {m m' : EStateM ε σ α} {f g : α → EStateM ε σ β}
    (hm : SimUnless P obs R' m m' s t)
    (hf : ∀ a s' t', R' s' t' → SimUnless P obs R (f a) (g a) s' t')
    (hl : ∀ a u, P u → Unseen P obs (f a) u) (hr : ∀ a u, P u → Unseen P obs (g a) u) :
    SimUnless P obs R (m >>= f) (m' >>= g) s t := by
  rcases hm with hm | ⟨hobs, hm, hm'⟩
  · rw [Sim, wp] at hm
    cases hs : m s with
    | ok a s' =>
      rw [hs] at hm
      obtain ⟨b, t', ht, rfl, hR⟩ := exists_ok_of_wp hm
      exact (hf a s' t' hR).of_eq (bind_eq_of_ok hs) (bind_eq_of_ok ht)
    | error e s' =>
      rw [hs] at hm
      obtain ⟨e', t', ht, rfl, hE⟩ := exists_error_of_wp hm
      refine Or.inl ?_
      rw [Sim, wp_bind, wp_of_eq_error hs, wp_bind, wp_of_eq_error ht]
      exact ⟨rfl, hE⟩
  · obtain ⟨hl₁, hl₂⟩ := Unseen.bind hm hl
    obtain ⟨hr₁, hr₂⟩ := Unseen.bind hm' hr
    exact Or.inr ⟨hl₁.trans (hobs.trans hr₁.symm), hl₂, hr₂⟩

/-- A run of unseen steps is unseen. -/
theorem Unseen.runAll {step : β → EStateM ε σ PUnit} {is : List β}
    (h : ∀ i ∈ is, ∀ u, P u → Unseen P obs (step i) u) (hs : P s) :
    Unseen P obs (runAll step is) s := by
  induction is generalizing s with
  | nil => exact ⟨hs, rfl⟩
  | cons i is ih =>
    rw [Unseen, runAll_cons, wp_bind]
    refine wp_mono (h i List.mem_cons_self s hs) (fun _ u hu => ?_) fun _ _ hu => hu
    refine wp_mono (ih (fun j hj => h j (List.mem_cons_of_mem _ hj)) hu.1) (fun _ v hv => ?_)
      fun _ v hv => ?_
    · exact ⟨hv.1, hv.2.trans hu.2⟩
    · exact hv.trans hu.2

/-- Steps that end alike unless they part make runs that do, when no step is seen after they
have parted. -/
theorem simUnless_runAll {step : β → EStateM ε σ PUnit} {is : List β}
    (h : ∀ i ∈ is, ∀ s t, R s t → SimUnless P obs R (step i) (step i) s t)
    (hu : ∀ i ∈ is, ∀ u, P u → Unseen P obs (step i) u) (hR : R s t) :
    SimUnless P obs R (runAll step is) (runAll step is) s t := by
  induction is generalizing s t with
  | nil => exact (sim_pure hR _).simUnless
  | cons i is ih =>
    have hu' : ∀ j ∈ is, ∀ u, P u → Unseen P obs (step j) u := fun j hj =>
      hu j (List.mem_cons_of_mem _ hj)
    refine simUnless_bind (h i List.mem_cons_self s t hR) (fun _ s' t' hR' => ?_)
      (fun _ u hP => Unseen.runAll hu' hP) fun _ u hP => Unseen.runAll hu' hP
    exact ih (fun j hj => h j (List.mem_cons_of_mem _ hj)) hu' hR'

/-- Whether or not they part, two runs are observed to do the same. -/
theorem SimUnless.observed {m m' : EStateM ε σ α} (h : SimUnless P obs R m m' s t)
    (hR : ∀ s' t', R s' t' → obs s' = obs t') :
    obs (finalState (m s)) = obs (finalState (m' t)) := by
  rcases h with h | h
  · exact (h.mono hR fun _ _ h => h).final
  · exact h.1

end parting

end CppImprovement
