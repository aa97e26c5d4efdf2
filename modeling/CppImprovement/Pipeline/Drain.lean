import CppImprovement.Pipeline.Inflight

/-!
# Draining the pipeline

Wherever the threads have been stopped, nothing is stuck: the commits and calls under way can be
carried to their end, and a consumer that goes on consuming is then given everything that was
pushed and not yet popped. Afterwards every slot is free again but those that continuations hold.
-/

namespace CppImprovement.Pipe

variable {ρ : Type}

namespace Pipeline

/-- A step that ends a commit, or one of the consumer's. -/
def Drains : Step ρ → Prop
  | .signal _ => True
  | .consume _ => True
  | .pop => True
  | .release => True
  | _ => False

variable {depth : Nat} {s t u : Pipeline ρ} {o tr : List (Event ρ)}

/-- Draining pushes nothing. -/
theorem pushes_of_drains {i : Step ρ} (hi : Drains i) (h : step i s = some (o, t)) :
    Pipe.pushes o = [] := by
  cases i with
  | signal i =>
    obtain ⟨traceId, resource, -, rfl, -⟩ | ⟨traceId, -, rfl, -⟩ := signal_cases h <;> rfl
  | consume nonNull =>
    obtain ⟨rfl, -⟩ | ⟨-, -, rfl, -⟩ := consume_cases h <;> rfl
  | pop =>
    obtain ⟨calls, resource, traceId, queue, -, -, rfl, -⟩ := pop_cases h
    rfl
  | release =>
    obtain ⟨resource, itemsCount, calls, -, rfl, -⟩ := release_cases h
    rfl
  | construct => exact hi.elim
  | produce commit => exact hi.elim
  | moveConstruct source => exact hi.elim
  | moveAssign target source => exact hi.elim
  | complete i resource => exact hi.elim
  | destroy i => exact hi.elim

private theorem balanced_of_reaches (h : s.Balanced depth) (hr : Reaches step Drains s t) :
    t.Balanced depth := by
  obtain ⟨is, tr, hexec, -⟩ := hr
  exact exec_keeps (fun _ _ _ _ hs hstep => hs.step hstep) h hexec

/-! ## The commits under way -/

/-- A commit under way can be ended. -/
theorem exists_signal (h : 0 < s.committing) :
    ∃ i o t, step (.signal i) s = some (o, t) ∧ t.committing + 1 = s.committing := by
  obtain ⟨a, hmem, ha⟩ := List.countP_pos_iff.mp h
  obtain ⟨i, hi⟩ := List.mem_iff_getElem?.mp hmem
  cases a with
  | alive c => cases ha
  | destroyed => cases ha
  | completing traceId resource =>
    refine ⟨i, _, _, by rw [step, signal, hi], ?_⟩
    exact (counts_setObject (.alive ⟨none, traceId⟩) hi).2
  | destroying traceId =>
    refine ⟨i, _, _, by rw [step, signal, hi], ?_⟩
    exact (counts_setObject .destroyed hi).2

private theorem reaches_committed (s : Pipeline ρ) :
    ∃ t, Reaches step Drains s t ∧ t.committing = 0 := by
  induction hn : s.committing generalizing s with
  | zero => exact ⟨s, ⟨[], [], rfl, by simp⟩, hn⟩
  | succ n ih =>
    obtain ⟨i, o, t, hstep, ht⟩ := exists_signal (s := s) (by omega)
    obtain ⟨u, hu, hzero⟩ := ih t (by omega)
    exact ⟨u, .cons hstep trivial hu, hzero⟩

/-! ## The calls under way -/

/-- The consumer that was given something can return. -/
theorem reaches_released {resource : Option ρ} {itemsCount : Nat} {calls : List (Frame ρ)}
    (hcalls : s.calls = .popped resource itemsCount :: calls) :
    ∃ t, Reaches step Drains s t ∧ t.calls = calls ∧ t.objects = s.objects := by
  have hstep : step .release s =
      some ([.consumed (if itemsCount > 0 then .moreAvailable else .done)],
        { s with empty := s.empty.signal, calls := calls }) := by
    rw [step, release, hcalls]
  exact ⟨_, .single hstep trivial, rfl, rfl⟩

/-- A call that has the semaphore finds something to pop. -/
theorem reaches_popped (h : s.Balanced depth) {calls : List (Frame ρ)}
    (hcalls : s.calls = .taken :: calls) :
    ∃ t resource itemsCount, Reaches step Drains s t ∧
      t.calls = .popped resource itemsCount :: calls ∧ t.objects = s.objects := by
  have hfilled := h.filled
  have htaken : 0 < s.taken := by
    rw [taken, hcalls, List.countP_cons_of_pos rfl]
    omega
  obtain ⟨⟨resource, traceId⟩, queue, hqueue⟩ :=
    List.exists_cons_of_length_pos (show 0 < s.queue.length by omega)
  have hstep : step .pop s = some ([.popped resource traceId],
      { s with queue := queue, calls := .popped resource queue.length :: calls }) := by
    rw [step, pop, hcalls, hqueue]
  exact ⟨_, _, _, .single hstep trivial, rfl, rfl⟩

/-- All calls under way can be ended. -/
theorem reaches_returned (h : s.Balanced depth) :
    ∃ t, Reaches step Drains s t ∧ t.calls = [] ∧ t.objects = s.objects := by
  induction hcalls : s.calls generalizing s with
  | nil => exact ⟨s, ⟨[], [], rfl, by simp⟩, hcalls, rfl⟩
  | cons f calls ih =>
    have hended : ∃ t, Reaches step Drains s t ∧ t.calls = calls ∧ t.objects = s.objects := by
      cases f with
      | popped resource itemsCount => exact reaches_released hcalls
      | taken =>
        obtain ⟨t, resource, itemsCount, ht, htcalls, htobjects⟩ := reaches_popped h hcalls
        obtain ⟨u, hu, hucalls, huobjects⟩ := reaches_released htcalls
        exact ⟨u, ht.trans hu, hucalls, huobjects.trans htobjects⟩
    obtain ⟨t, ht, htcalls, htobjects⟩ := hended
    obtain ⟨u, hu, hucalls, huobjects⟩ := ih (balanced_of_reaches h ht) htcalls
    exact ⟨u, ht.trans hu, hucalls, huobjects.trans htobjects⟩

/-! ## The queue -/

/-- With nothing under way, one more call of `Consume` takes the head of the queue. -/
theorem reaches_consumed (h : s.Balanced depth) (hcalls : s.calls = [])
    (hcommitting : s.committing = 0) {item : Option ρ × Nat} {queue : List (Option ρ × Nat)}
    (hqueue : s.queue = item :: queue) :
    ∃ t, Reaches step Drains s t ∧ t.queue = queue ∧ t.calls = [] ∧ t.objects = s.objects := by
  have hfilled := h.filled
  have htaken : s.taken = 0 := by rw [taken, hcalls, List.countP_nil]
  have hlength : s.queue.length = queue.length + 1 := by rw [hqueue, List.length_cons]
  have hw : s.available.tryWait = some { s.available with count := s.available.count - 1 } := by
    rw [Semaphore.tryWait, if_pos ⟨h.available_valid, by omega⟩]
  obtain ⟨item', queue', o, hqueue', hexec⟩ := Metered.exec_consume_some h hcalls hw
  rw [hqueue] at hqueue'
  obtain ⟨-, rfl⟩ := List.cons.inj hqueue'
  exact ⟨_, ⟨_, o, hexec, by simp [Drains]⟩, rfl, hcalls, rfl⟩

/-- The queue can be consumed to its end. -/
theorem reaches_empty (h : s.Balanced depth) (hcalls : s.calls = [])
    (hcommitting : s.committing = 0) :
    ∃ t, Reaches step Drains s t ∧ t.queue = [] ∧ t.calls = [] ∧ t.objects = s.objects := by
  induction hqueue : s.queue generalizing s with
  | nil => exact ⟨s, ⟨[], [], rfl, by simp⟩, hqueue, hcalls, rfl⟩
  | cons item queue ih =>
    obtain ⟨t, ht, htqueue, htcalls, htobjects⟩ := reaches_consumed h hcalls hcommitting hqueue
    have htcommitting : t.committing = 0 := by
      rw [committing, htobjects]
      exact hcommitting
    obtain ⟨u, hu, huqueue, hucalls, huobjects⟩ :=
      ih (balanced_of_reaches h ht) htcalls htcommitting htqueue
    exact ⟨u, ht.trans hu, huqueue, hucalls, huobjects.trans htobjects⟩

/-- From every state the pipeline can be drained. -/
theorem reaches_drained (h : s.Balanced depth) :
    ∃ t, Reaches step Drains s t ∧ t.queue = [] ∧ t.calls = [] ∧ t.committing = 0 := by
  obtain ⟨t, ht, htcommitting⟩ := reaches_committed s
  obtain ⟨u, hu, hucalls, huobjects⟩ := reaches_returned (balanced_of_reaches h ht)
  have hucommitting : u.committing = 0 := by
    rw [committing, huobjects]
    exact htcommitting
  have htu := ht.trans hu
  obtain ⟨v, hv, hvqueue, hvcalls, hvobjects⟩ :=
    reaches_empty (balanced_of_reaches h htu) hucalls hucommitting
  refine ⟨v, htu.trans hv, hvqueue, hvcalls, ?_⟩
  rw [committing, hvobjects]
  exact hucommitting

end Pipeline

/-- Every run can be carried on, without a new push, until all that was ever pushed has been
popped in its order and only the live continuations hold a slot. -/
theorem run_drains {depth : Nat} {steps : List (Step ρ)} {tr : List (Event ρ)} {s : Pipeline ρ}
    (hrun : exec Pipeline.step steps (.create depth) = some (tr, s)) :
    ∃ more tr' t, (∀ i ∈ more, Pipeline.Drains i) ∧
      exec Pipeline.step more s = some (tr', t) ∧ pops (tr ++ tr') = pushes tr ∧
      t.calls = [] ∧ t.committing = 0 ∧ t.queue = [] ∧ t.empty.count + t.live = depth := by
  have hs : s.Balanced depth :=
    exec_keeps (fun _ _ _ _ h hstep => h.step hstep) (Pipeline.balanced_create depth) hrun
  obtain ⟨t, hreach, hqueue, hcalls, hcommitting⟩ := Pipeline.reaches_drained hs
  have hslots := (Pipeline.balanced_of_reaches hs hreach).slots
  obtain ⟨more, tr', hmore, hdrains⟩ := hreach
  refine ⟨more, tr', t, hdrains, hmore, ?_, hcalls, hcommitting, hqueue, ?_⟩
  · have hpushed : pushes ([] ++ tr') = [] := by
      refine exec_invariant_on (I := fun tr (_ : Pipeline ρ) => pushes tr = []) ?_ hdrains rfl hmore
      intro tr i u o v hi hnone hstep
      rw [Pipeline.pushes_append, hnone, Pipeline.pushes_of_drains hi hstep]
      rfl
    have hall := exec_append_eq_some.mpr ⟨s, tr, tr', hrun, hmore, rfl⟩
    have hdelivered : Pipeline.Delivered (tr ++ tr') t :=
      exec_invariant (fun _ _ _ _ _ h hstep => h.step hstep)
        (Pipeline.delivered_create depth) hall
    have horder := hdelivered.order
    rw [List.nil_append] at hpushed
    rw [hqueue, List.append_nil, Pipeline.pushes_append, hpushed, List.append_nil] at horder
    exact horder
  · have hunreleased : t.unreleased = 0 := by
      rw [Pipeline.unreleased, hcalls, List.countP_nil]
    rw [hqueue, hunreleased] at hslots
    exact hslots

/-- A producer is stopped between its push and its signal, and the consumer before its pop. -/
def stoppedSteps : List (Step Nat) :=
  [.produce .always, .produce .always, .complete 0 (some 7), .signal 0, .consume true,
    .complete 1 (some 8)]

theorem run_drains_stopped :
    ∃ tr s, exec Pipeline.step stoppedSteps (.create 2) = some (tr, s) ∧
      pops tr = [] ∧ pushes tr = [(some 7, 1), (some 8, 2)] ∧
      ∃ more tr' t, (∀ i ∈ more, Pipeline.Drains i) ∧
        exec Pipeline.step more s = some (tr', t) ∧ pops (tr ++ tr') = pushes tr ∧
        t.calls = [] ∧ t.committing = 0 ∧ t.queue = [] ∧ t.empty.count + t.live = 2 := by
  have hstopped : ∃ tr s, exec Pipeline.step stoppedSteps (.create 2) = some (tr, s) ∧
      pops tr = [] ∧ pushes tr = [(some 7, 1), (some 8, 2)] :=
    ⟨_, _, rfl, rfl, rfl⟩
  obtain ⟨tr, s, hrun, hpops, hpushes⟩ := hstopped
  exact ⟨tr, s, hrun, hpops, hpushes, run_drains hrun⟩

end CppImprovement.Pipe
