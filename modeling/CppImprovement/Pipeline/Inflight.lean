import CppImprovement.Pipeline.Delivery

/-!
# The inflight counter

Beside the two semaphores a pipeline counts the slots in use in `inflight_`: `Produce` and
`ProduceIfEmpty` add one, `Consume` takes one off. A commit of `ProduceIfEmpty` that finds the
queue non-empty frees its slot too, but leaves the counter as it is. Over any sequence of complete
operations the counter is off by the number of these commits, so it is exact throughout when and
only when there is none.
-/

namespace CppImprovement.Pipe

variable {ρ : Type}

/-! ## Operations on the pipeline and its counter -/

/-- A pipeline with `inflight_`, an atomic `int` whose arithmetic wraps. -/
structure Metered (ρ : Type) where
  pipeline : Pipeline ρ
  inflight : BitVec 32

/-- `Pipeline(depth)`. -/
def Metered.create (depth : Nat) : Metered ρ where
  pipeline := .create depth
  inflight := 0

/-- What a step adds to `inflight_`: one when `Produce` or `ProduceIfEmpty` gets a slot, minus one
at the end of `Consume`. -/
def inflightChange : Step ρ → Pipeline ρ → BitVec 32
  | .produce _, s => if s.empty.tryWait.isSome then 1 else 0
  | .release, _ => -1
  | _, _ => 0

/-- One step with its effect on the counter. -/
def Metered.step (i : Step ρ) (s : Metered ρ) : Option (List (Event ρ) × Metered ρ) :=
  (Pipeline.step i s.pipeline).map fun r =>
    (r.1, { pipeline := r.2, inflight := s.inflight + inflightChange i s.pipeline })

/-- An operation that runs to its end before the next one starts; the numbers name objects. -/
inductive Operation (ρ : Type)
  | construct
  | produce
  | produceIfEmpty
  | moveConstruct (source : Nat)
  | moveAssign (target source : Nat)
  | complete (i : Nat) (resource : Option ρ)
  | destroy (i : Nat)
  | consume (nonNull : Bool)

/-- The commit of the object gives its slot back: it is one of `ProduceIfEmpty`, and the queue is
not empty. -/
def Pipeline.bailsOut (i : Nat) (s : Pipeline ρ) : Bool :=
  match s.objects[i]? with
  | some (.alive c) => c.continuation.elim false s.bails
  | _ => false

/-- The commit of the object pushes. -/
def Pipeline.pushes (i : Nat) (s : Pipeline ρ) : Bool :=
  match s.objects[i]? with
  | some (.alive c) => c.continuation.elim false fun commit => !s.bails commit
  | _ => false

/-- The steps of an operation: a commit that pushes has to signal, and `Consume` goes on when it
gets the semaphore. -/
def Operation.steps (s : Pipeline ρ) : Operation ρ → List (Step ρ)
  | .construct => [.construct]
  | .produce => [.produce .always]
  | .produceIfEmpty => [.produce .ifEmpty]
  | .moveConstruct source => [.moveConstruct source]
  | .moveAssign target source => [.moveAssign target source]
  | .complete i resource =>
    if s.pushes i then [.complete i resource, .signal i] else [.complete i resource]
  | .destroy i => if s.pushes i then [.destroy i, .signal i] else [.destroy i]
  | .consume nonNull =>
    if nonNull && s.available.tryWait.isSome then [.consume nonNull, .pop, .release]
    else [.consume nonNull]

/-- Run an operation. -/
def Metered.perform (op : Operation ρ) (s : Metered ρ) : Option (List (Event ρ) × Metered ρ) :=
  exec Metered.step (op.steps s.pipeline) s

/-- The operation ends a continuation of `ProduceIfEmpty` while the queue is not empty. -/
def Operation.bailsOut (s : Pipeline ρ) : Operation ρ → Bool
  | .complete i _ => s.bailsOut i
  | .destroy i => s.bailsOut i
  | _ => false

/-- The same for a step. -/
def Step.bailsOut (s : Pipeline ρ) : Step ρ → Bool
  | .complete i _ => s.bailsOut i
  | .destroy i => s.bailsOut i
  | _ => false

/-- The counter is the number of live uncommitted continuations and queued items, and the number
of slots that are not free. -/
structure Metered.Exact (s : Metered ρ) : Prop where
  held : s.inflight.toInt = s.pipeline.live + s.pipeline.queue.length
  slots : s.inflight.toInt = s.pipeline.depth - s.pipeline.empty.count

/-! ## What a step does to the free slots -/

namespace Pipeline

variable {s t : Pipeline ρ} {depth i : Nat} {o : List (Event ρ)}

private theorem bailsOut_alive {c : ProducerContinuation} (hc : s.objects[i]? = some (.alive c)) :
    s.bailsOut i = c.continuation.elim false s.bails := by
  rw [bailsOut, hc]

private theorem pushes_alive {c : ProducerContinuation} (hc : s.objects[i]? = some (.alive c)) :
    s.pushes i = c.continuation.elim false fun commit => !s.bails commit := by
  rw [pushes, hc]

/-- A live continuation that bails out frees one slot. -/
theorem Balanced.count_signal (h : s.Balanced depth) {c : ProducerContinuation} {commit : Commit}
    (hc : s.objects[i]? = some (.alive c)) (hk : c.continuation = some commit) :
    s.empty.signal.count = s.empty.count + 1 := by
  have hlive : (Object.alive c : Object ρ).live = true := by
    rw [Object.live, hk]
    rfl
  have hpos : 0 < s.live := List.countP_pos_iff.mpr ⟨_, List.mem_of_getElem? hc, hlive⟩
  have hslots := h.slots
  rw [h.signal_empty (by omega)]

private theorem Balanced.empty_complete (h : s.Balanced depth) {resource : Option ρ}
    (hstep : s.complete i resource = some (o, t)) :
    t.empty.count = s.empty.count + (s.bailsOut i).toNat := by
  obtain ⟨c, hc, ⟨hk, -, rfl⟩ | ⟨commit, hk, ⟨hb, -, rfl⟩ | ⟨hb, -, rfl⟩⟩⟩ := complete_cases hstep
  · rw [bailsOut_alive hc, hk]
    rfl
  · rw [bailsOut_alive hc, hk, Option.elim_some, hb]
    exact h.count_signal hc hk
  · rw [bailsOut_alive hc, hk, Option.elim_some, hb]
    rfl

private theorem Balanced.empty_destroy (h : s.Balanced depth) (hstep : s.destroy i = some (o, t)) :
    t.empty.count = s.empty.count + (s.bailsOut i).toNat := by
  obtain ⟨c, hc, ⟨hk, -, rfl⟩ | ⟨commit, hk, ⟨hb, -, rfl⟩ | ⟨hb, -, rfl⟩⟩⟩ := destroy_cases hstep
  · rw [bailsOut_alive hc, hk]
    rfl
  · rw [bailsOut_alive hc, hk, Option.elim_some, hb]
    exact h.count_signal hc hk
  · rw [bailsOut_alive hc, hk, Option.elim_some, hb]
    rfl

/-- The end of `Consume` frees one slot. -/
theorem Balanced.empty_release (h : s.Balanced depth) (hstep : s.release = some (o, t)) :
    t.empty.count = s.empty.count + 1 := by
  obtain ⟨resource, itemsCount, calls, hcalls, -, rfl⟩ := release_cases hstep
  have hunreleased : s.unreleased = (calls.countP fun f => !f.isTaken) + 1 := by
    rw [unreleased, hcalls, List.countP_cons_of_pos rfl]
  have hslots := h.slots
  change s.empty.signal.count = _
  rw [h.signal_empty (by omega)]

/-- What `Produce` adds to the counter it takes from the free slots. -/
theorem empty_produce (commit : Commit) (s : Pipeline ρ) :
    inflightChange (.produce commit : Step ρ) s + BitVec.ofNat 32 (s.produce commit).empty.count =
      BitVec.ofNat 32 s.empty.count := by
  rw [inflightChange, produce]
  cases hw : s.empty.tryWait with
  | none => exact BitVec.zero_add _
  | some e =>
    obtain ⟨hcond, heq⟩ := Option.ite_none_right_eq_some.mp hw
    cases heq
    have hone : s.empty.count = 1 + (s.empty.count - 1) := by omega
    conv_rhs => rw [hone, BitVec.ofNat_add]
    rfl

/-- What a step adds to the counter it takes from the free slots, and a slot becomes free without
the counter when the step bails out. -/
theorem Balanced.empty_step (h : s.Balanced depth) {i : Step ρ}
    (hstep : Pipeline.step i s = some (o, t)) :
    inflightChange i s + BitVec.ofNat 32 t.empty.count =
      BitVec.ofNat 32 (s.empty.count + (i.bailsOut s).toNat) := by
  have hquiet : t.empty.count = s.empty.count + (i.bailsOut s).toNat →
      (0 : BitVec 32) + BitVec.ofNat 32 t.empty.count =
        BitVec.ofNat 32 (s.empty.count + (i.bailsOut s).toNat) := by
    intro heq
    rw [heq]
    exact BitVec.zero_add _
  cases i with
  | construct =>
    cases hstep
    exact hquiet rfl
  | produce commit =>
    cases hstep
    exact empty_produce commit s
  | moveConstruct source =>
    obtain ⟨c, hc, -, rfl⟩ := moveConstruct_cases hstep
    exact hquiet rfl
  | moveAssign target source =>
    obtain ⟨c, c', hc, hc', -, rfl⟩ := moveAssign_cases hstep
    exact hquiet rfl
  | complete i resource => exact hquiet (h.empty_complete hstep)
  | destroy i => exact hquiet (h.empty_destroy hstep)
  | signal i =>
    obtain ⟨traceId, resource, hi, -, rfl⟩ | ⟨traceId, hi, -, rfl⟩ := signal_cases hstep
    · exact hquiet rfl
    · exact hquiet rfl
  | consume nonNull =>
    obtain ⟨-, rfl⟩ | ⟨-, hpos, -, rfl⟩ := consume_cases hstep
    · exact hquiet rfl
    · exact hquiet rfl
  | pop =>
    obtain ⟨calls, resource, traceId, queue, hcalls, hqueue, -, rfl⟩ := pop_cases hstep
    exact hquiet rfl
  | release =>
    have hchange : (-1 : BitVec 32) + 1 = 0 := rfl
    rw [h.empty_release hstep, Nat.add_comm, BitVec.ofNat_add, ← BitVec.add_assoc]
    change (-1 : BitVec 32) + 1 + _ = _
    rw [hchange]
    exact BitVec.zero_add _

end Pipeline

/-! ## The drift of the counter -/

section drift

variable {depth n : Nat} {s t : Metered ρ} {o : List (Event ρ)}

open Pipeline

namespace Metered

/-- The counter and the free slots add up to the depth and `n` more. -/
structure Drift (depth n : Nat) (s : Metered ρ) : Prop where
  balanced : s.pipeline.Balanced depth
  counter : s.inflight + BitVec.ofNat 32 s.pipeline.empty.count = BitVec.ofNat 32 (depth + n)

private theorem drift_create (depth : Nat) : (create depth : Metered ρ).Drift depth 0 where
  balanced := balanced_create depth
  counter := BitVec.zero_add _

private theorem step_eq_some {i : Step ρ} (h : Metered.step i s = some (o, t)) :
    Pipeline.step i s.pipeline = some (o, t.pipeline) ∧
      t.inflight = s.inflight + inflightChange i s.pipeline := by
  obtain ⟨⟨o', u⟩, hu, heq⟩ := Option.map_eq_some_iff.mp h
  cases heq
  exact ⟨hu, rfl⟩

/-- A step adds to the drift when it bails out. -/
theorem Drift.step (h : s.Drift depth n) {i : Step ρ} (hstep : Metered.step i s = some (o, t)) :
    t.Drift depth (n + (i.bailsOut s.pipeline).toNat) := by
  obtain ⟨hp, hinflight⟩ := step_eq_some hstep
  refine ⟨h.balanced.step hp, ?_⟩
  rw [hinflight, BitVec.add_assoc, h.balanced.empty_step hp, BitVec.ofNat_add, ← BitVec.add_assoc,
    h.counter, ← BitVec.ofNat_add, Nat.add_assoc]

/-- Steps that do not bail out leave the drift as it is. -/
theorem Drift.steps (h : s.Drift depth n) {is : List (Step ρ)}
    (his : ∀ i ∈ is, ∀ u : Pipeline ρ, i.bailsOut u = false)
    (hrun : exec Metered.step is s = some (o, t)) : t.Drift depth n := by
  induction is generalizing s o with
  | nil =>
    cases hrun
    exact h
  | cons i is ih =>
    obtain ⟨o₁, u, o₂, hstep, hrest, -⟩ := exec_cons_eq_some.mp hrun
    obtain ⟨hi, his⟩ := List.forall_mem_cons.mp his
    have hnext := h.step hstep
    rw [hi] at hnext
    exact ih hnext his hrest

/-- A first step, and then steps that do not bail out. -/
theorem Drift.cons (h : s.Drift depth n) {i : Step ρ} {is : List (Step ρ)}
    (his : ∀ i ∈ is, ∀ u : Pipeline ρ, i.bailsOut u = false)
    (hrun : exec Metered.step (i :: is) s = some (o, t)) :
    t.Drift depth (n + (i.bailsOut s.pipeline).toNat) := by
  obtain ⟨o₁, u, o₂, hstep, hrest, -⟩ := exec_cons_eq_some.mp hrun
  exact (h.step hstep).steps his hrest

/-- An operation adds to the drift when it bails out. -/
theorem Drift.perform (h : s.Drift depth n) {op : Operation ρ}
    (hop : Metered.perform op s = some (o, t)) :
    t.Drift depth (n + (op.bailsOut s.pipeline).toNat) := by
  have hnil : ∀ i ∈ ([] : List (Step ρ)), ∀ u : Pipeline ρ, i.bailsOut u = false := by simp
  rw [Metered.perform] at hop
  cases op with
  | construct => exact h.cons hnil hop
  | produce => exact h.cons hnil hop
  | produceIfEmpty => exact h.cons hnil hop
  | moveConstruct source => exact h.cons hnil hop
  | moveAssign target source => exact h.cons hnil hop
  | complete i resource =>
    rw [Operation.steps] at hop
    split at hop
    · exact h.cons (by simp [Step.bailsOut]) hop
    · exact h.cons hnil hop
  | destroy i =>
    rw [Operation.steps] at hop
    split at hop
    · exact h.cons (by simp [Step.bailsOut]) hop
    · exact h.cons hnil hop
  | consume nonNull =>
    rw [Operation.steps] at hop
    split at hop
    · exact h.cons (by simp [Step.bailsOut]) hop
    · exact h.cons hnil hop

/-! ## Complete operations -/

/-- The counter follows the pipeline and does not act on it. -/
theorem exec_pipeline (is : List (Step ρ)) (s : Metered ρ) :
    (exec Metered.step is s).map (fun r => (r.1, r.2.pipeline)) =
      exec Pipeline.step is s.pipeline := by
  induction is generalizing s with
  | nil => rfl
  | cons i is ih =>
    rw [exec, exec, Metered.step]
    cases hp : Pipeline.step i s.pipeline with
    | none => rfl
    | some r =>
      have hrest := ih { pipeline := r.2, inflight := s.inflight + inflightChange i s.pipeline }
      simp only [Option.map_some, Option.map_map]
      rw [← hrest, Option.map_map]
      rfl

private theorem pipeline_of_exec {is : List (Step ρ)} (h : exec Metered.step is s = some (o, t)) :
    exec Pipeline.step is s.pipeline = some (o, t.pipeline) := by
  rw [← exec_pipeline, h]
  rfl

private theorem exec_of_pipeline {is : List (Step ρ)} {u : Pipeline ρ}
    (h : exec Pipeline.step is s.pipeline = some (o, u)) :
    ∃ t, exec Metered.step is s = some (o, t) := by
  rw [← exec_pipeline] at h
  obtain ⟨⟨o', t⟩, ht, heq⟩ := Option.map_eq_some_iff.mp h
  cases heq
  exact ⟨t, ht⟩

/-- `Consume` without a consumer or without an item changes nothing. -/
theorem exec_consume_none {s : Pipeline ρ} (hs : s.calls = []) {nonNull : Bool}
    (hn : (nonNull && s.available.tryWait.isSome) = false) :
    exec Pipeline.step [.consume nonNull] s = some ([.consumed .noneAvailable], s) := by
  have hcallable : s.callable = true := by
    rw [callable, hs]
  have hstep : Pipeline.step (.consume nonNull) s = some ([.consumed .noneAvailable], s) := by
    rw [Pipeline.step, consume, if_pos hcallable]
    cases nonNull with
    | false => rfl
    | true =>
      cases hw : s.available.tryWait with
      | none => rfl
      | some available =>
        rw [hw] at hn
        cases hn
  rw [exec_cons_of_eq hstep]
  rfl

/-- `Consume` with an item takes it off the queue and gives its slot back. -/
theorem exec_consume_some {s : Pipeline ρ} (h : s.Balanced depth) (hs : s.calls = [])
    {available : Semaphore} (hw : s.available.tryWait = some available) :
    ∃ item queue o, s.queue = item :: queue ∧
      exec Pipeline.step [.consume true, .pop, .release] s = some (o,
        { s with empty := s.empty.signal, available := available, queue := queue }) := by
  have hcallable : s.callable = true := by
    rw [callable, hs]
  obtain ⟨hcond, -⟩ := Option.ite_none_right_eq_some.mp hw
  have hfilled := h.filled
  cases hq : s.queue with
  | nil =>
    rw [hq, List.length_nil] at hfilled
    omega
  | cons item queue =>
    obtain ⟨resource, traceId⟩ := item
    have hconsume : Pipeline.step (.consume true) s =
        some ([], { s with available := available, calls := [.taken] }) := by
      rw [Pipeline.step, consume, if_pos hcallable, if_pos rfl, hw, hs]
    have hpop : Pipeline.step .pop { s with available := available, calls := [.taken] } =
        some ([.popped resource traceId], { s with
          available := available, queue := queue, calls := [.popped resource queue.length] }) := by
      rw [Pipeline.step, pop]
      simp only [hq]
    refine ⟨_, queue, [.popped resource traceId,
      .consumed (if queue.length > 0 then .moreAvailable else .done)], rfl, ?_⟩
    rw [exec_cons_of_eq hconsume, exec_cons_of_eq hpop, ← hs]
    rfl

/-- Between operations no call of `Consume` is under way. -/
theorem calls_perform (h : s.pipeline.Balanced depth) (hs : s.pipeline.calls = [])
    {op : Operation ρ} (hop : Metered.perform op s = some (o, t)) : t.pipeline.calls = [] := by
  have hrun := pipeline_of_exec hop
  have hproducer : (∀ i ∈ op.steps s.pipeline, isConsumer i = false) →
      t.pipeline.calls = [] := fun h => (calls_exec h hrun).trans hs
  cases op with
  | construct => exact hproducer (by simp [Operation.steps, isConsumer])
  | produce => exact hproducer (by simp [Operation.steps, isConsumer])
  | produceIfEmpty => exact hproducer (by simp [Operation.steps, isConsumer])
  | moveConstruct source => exact hproducer (by simp [Operation.steps, isConsumer])
  | moveAssign target source => exact hproducer (by simp [Operation.steps, isConsumer])
  | complete i resource =>
    apply hproducer
    rw [Operation.steps]
    split <;> simp [isConsumer]
  | destroy i =>
    apply hproducer
    rw [Operation.steps]
    split <;> simp [isConsumer]
  | consume nonNull =>
    rw [Operation.steps] at hrun
    split at hrun
    · rename_i hsome
      obtain ⟨rfl, hw⟩ := Bool.and_eq_true_iff.mp hsome
      obtain ⟨available, hw⟩ := Option.isSome_iff_exists.mp hw
      obtain ⟨item, queue, o', -, hexec⟩ := exec_consume_some h hs hw
      rw [hexec] at hrun
      injection hrun with hrun
      rw [← congrArg (fun r => r.2.calls) hrun]
      exact hs
    · rename_i hnot
      rw [exec_consume_none hs (Bool.eq_false_iff.mpr hnot)] at hrun
      injection hrun with hrun
      rw [← congrArg (fun r => r.2.calls) hrun]
      exact hs

end Metered

/-- The object exists. -/
def Pipeline.Usable (s : Pipeline ρ) (i : Nat) : Prop := ∃ c, s.objects[i]? = some (.alive c)

/-- The objects the operation names exist. -/
def Operation.Usable (s : Pipeline ρ) : Operation ρ → Prop
  | .moveConstruct source => s.Usable source
  | .moveAssign target source => s.Usable target ∧ s.Usable source
  | .complete i _ => s.Usable i
  | .destroy i => s.Usable i
  | _ => True

namespace Metered

/-- The signal after a push finds the commit under way. -/
theorem exec_signal {s : Pipeline ρ} {i traceId : Nat} {resource : Option ρ}
    (hi : s.objects[i]? = some (.completing traceId resource) ∨
      s.objects[i]? = some (.destroying traceId)) :
    ∃ o t, exec Pipeline.step [.signal i] s = some (o, t) := by
  rcases hi with hi | hi
  · have hstep : Pipeline.step (.signal i) s = some ([.completed i traceId resource true],
        { s with available := s.available.signal }.setObject i
          (.alive { continuation := none, traceId := traceId })) := by
      rw [Pipeline.step, signal, hi]
    exact ⟨_, _, exec_cons_of_eq hstep⟩
  · have hstep : Pipeline.step (.signal i) s =
        some ([], { s with available := s.available.signal }.setObject i .destroyed) := by
      rw [Pipeline.step, signal, hi]
    exact ⟨_, _, exec_cons_of_eq hstep⟩

private theorem exec_cons_of_exec {s t u : Pipeline ρ} {i : Step ρ} {is : List (Step ρ)}
    {o o' : List (Event ρ)} (hstep : Pipeline.step i s = some (o, t))
    (hexec : exec Pipeline.step is t = some (o', u)) :
    ∃ o t, exec Pipeline.step (i :: is) s = some (o, t) :=
  ⟨_, _, exec_cons_eq_some.mpr ⟨o, t, o', hstep, hexec, rfl⟩⟩

/-- A commit runs to its end: the step up to the critical section, and the signal if it pushed. -/
theorem exec_commit {s : Pipeline ρ} {i : Nat} {first : Step ρ}
    (hfirst : (Pipeline.step first s).isSome = true)
    (hpushed : ∀ o t, Pipeline.step first s = some (o, t) → s.pushes i = true →
      ∃ traceId resource, t.objects[i]? = some (.completing traceId resource) ∨
        t.objects[i]? = some (.destroying traceId)) :
    ∃ o t, exec Pipeline.step (if s.pushes i then [first, .signal i] else [first]) s =
      some (o, t) := by
  obtain ⟨⟨o, t⟩, hstep⟩ := Option.isSome_iff_exists.mp hfirst
  split
  · rename_i hp
    obtain ⟨traceId, resource, hi⟩ := hpushed o t hstep hp
    obtain ⟨o', u, hsignal⟩ := exec_signal hi
    exact exec_cons_of_exec hstep hsignal
  · exact exec_cons_of_exec hstep rfl

private theorem exec_complete {s : Pipeline ρ} {i : Nat} (hi : s.Usable i) (resource : Option ρ) :
    ∃ o t, exec Pipeline.step (Operation.steps s (.complete i resource)) s = some (o, t) := by
  obtain ⟨c, hc⟩ := hi
  refine exec_commit ?_ fun o t hstep hpush => ?_
  · simp only [Pipeline.step, Pipeline.complete, hc]
    split
    · rfl
    · split <;> rfl
  · obtain ⟨c', hc', ⟨hk, -, rfl⟩ | ⟨commit, hk, ⟨hb, -, rfl⟩ | ⟨hb, -, rfl⟩⟩⟩ :=
      complete_cases hstep
    · rw [pushes_alive hc', hk] at hpush
      cases hpush
    · rw [pushes_alive hc', hk, Option.elim_some, hb] at hpush
      cases hpush
    · have hlt : i < s.objects.length := (List.getElem?_eq_some_iff.mp hc).1
      exact ⟨_, _, Or.inl (List.getElem?_set_self hlt)⟩

private theorem exec_destroy {s : Pipeline ρ} {i : Nat} (hi : s.Usable i) :
    ∃ o t, exec Pipeline.step (Operation.steps s (.destroy i)) s = some (o, t) := by
  obtain ⟨c, hc⟩ := hi
  refine exec_commit ?_ fun o t hstep hpush => ?_
  · simp only [Pipeline.step, Pipeline.destroy, hc]
    split
    · rfl
    · split <;> rfl
  · obtain ⟨c', hc', ⟨hk, -, rfl⟩ | ⟨commit, hk, ⟨hb, -, rfl⟩ | ⟨hb, -, rfl⟩⟩⟩ :=
      destroy_cases hstep
    · rw [pushes_alive hc', hk] at hpush
      cases hpush
    · rw [pushes_alive hc', hk, Option.elim_some, hb] at hpush
      cases hpush
    · have hlt : i < s.objects.length := (List.getElem?_eq_some_iff.mp hc).1
      exact ⟨c'.traceId, none, Or.inr (List.getElem?_set_self hlt)⟩

/-- An operation on objects that exist runs to its end. -/
theorem perform_of_usable (h : s.pipeline.Balanced depth) (hs : s.pipeline.calls = [])
    {op : Operation ρ} (hop : op.Usable s.pipeline) :
    ∃ o t, Metered.perform op s = some (o, t) := by
  have hrun : ∃ o t, exec Pipeline.step (op.steps s.pipeline) s.pipeline = some (o, t) := by
    cases op with
    | construct => exact exec_cons_of_exec rfl rfl
    | produce => exact exec_cons_of_exec rfl rfl
    | produceIfEmpty => exact exec_cons_of_exec rfl rfl
    | moveConstruct source =>
      obtain ⟨c, hc⟩ := hop
      have hstep : Pipeline.step (.moveConstruct source) s.pipeline = some ([],
          (s.pipeline.setObject source (.alive emptyContinuation)).construct c) := by
        rw [Pipeline.step, moveConstruct, hc]
      exact exec_cons_of_exec hstep rfl
    | moveAssign target source =>
      obtain ⟨⟨c, hc⟩, ⟨c', hc'⟩⟩ := hop
      have hstep : Pipeline.step (.moveAssign target source) s.pipeline = some ([],
          (s.pipeline.setObject target (.alive c')).setObject source (.alive c)) := by
        rw [Pipeline.step, moveAssign, hc, hc']
      exact exec_cons_of_exec hstep rfl
    | complete i resource => exact exec_complete hop resource
    | destroy i => exact exec_destroy hop
    | consume nonNull =>
      rw [Operation.steps]
      split
      · rename_i hsome
        obtain ⟨rfl, hw⟩ := Bool.and_eq_true_iff.mp hsome
        obtain ⟨available, hw⟩ := Option.isSome_iff_exists.mp hw
        obtain ⟨item, queue, o, -, hexec⟩ := exec_consume_some h hs hw
        exact ⟨_, _, hexec⟩
      · rename_i hnot
        exact ⟨_, _, exec_consume_none hs (Bool.eq_false_iff.mpr hnot)⟩
  obtain ⟨o, u, hrun⟩ := hrun
  obtain ⟨t, ht⟩ := exec_of_pipeline hrun
  exact ⟨o, t, ht⟩

/-! ## Whole runs -/

/-- What holds between operations, with the number of bail-outs so far. -/
structure AtRest (depth n : Nat) (s : Metered ρ) : Prop where
  drift : s.Drift depth n
  calls : s.pipeline.calls = []

private theorem atRest_create (depth : Nat) : (create depth : Metered ρ).AtRest depth 0 where
  drift := drift_create depth
  calls := rfl

theorem AtRest.perform (h : s.AtRest depth n) {op : Operation ρ}
    (hop : Metered.perform op s = some (o, t)) :
    t.AtRest depth (n + (op.bailsOut s.pipeline).toNat) where
  drift := h.drift.perform hop
  calls := calls_perform h.drift.balanced h.calls hop

/-- The number of operations of a run that bail out. -/
def bailOuts : List (Operation ρ) → Metered ρ → Nat
  | [], _ => 0
  | op :: ops, s =>
    (op.bailsOut s.pipeline).toNat + ((Metered.perform op s).elim 0 fun r => bailOuts ops r.2)

/-- Over a run the counter drifts by one for every bail-out. -/
theorem AtRest.run (h : s.AtRest depth n) {ops : List (Operation ρ)}
    (hrun : exec Metered.perform ops s = some (o, t)) :
    t.AtRest depth (n + bailOuts ops s) := by
  induction ops generalizing s n o with
  | nil =>
    cases hrun
    exact h
  | cons op ops ih =>
    obtain ⟨o₁, u, o₂, hop, hrest, -⟩ := exec_cons_eq_some.mp hrun
    have hend := ih (h.perform hop) hrest
    rw [bailOuts, hop, Option.elim_some, ← Nat.add_assoc]
    exact hend

/-- Between operations every slot that is not free belongs to a live continuation or to an item
of the queue. -/
theorem AtRest.slots (h : s.AtRest depth n) :
    s.pipeline.empty.count + (s.pipeline.live + s.pipeline.queue.length) = depth := by
  have hslots := h.drift.balanced.slots
  have hunreleased : s.pipeline.unreleased = 0 := by
    rw [unreleased, h.calls]
    rfl
  omega

/-- The slots in use fit into an `int`. -/
theorem AtRest.inUse_lt (h : s.AtRest depth n) : depth - s.pipeline.empty.count < 2 ^ 31 := by
  cases hv : s.pipeline.empty.valid with
  | false =>
    have hcount := h.drift.balanced.empty_invalid hv
    omega
  | true =>
    have hle := h.drift.balanced.empty_valid hv
    rw [longMax] at hle
    omega

/-- Without drift the counter is exact. -/
theorem AtRest.exact (h : s.AtRest depth 0) : s.Exact := by
  have hslots := h.slots
  have hlt := h.inUse_lt
  have hdepth := h.drift.balanced.depth_eq
  have hcounter := h.drift.counter
  have hinflight : s.inflight = BitVec.ofNat 32 (depth - s.pipeline.empty.count) := by
    have hsplit : depth + 0 = depth - s.pipeline.empty.count + s.pipeline.empty.count := by omega
    rw [hsplit, BitVec.ofNat_add] at hcounter
    exact (BitVec.add_left_inj _).mp hcounter
  have hvalue : s.inflight.toInt = ((depth - s.pipeline.empty.count : Nat) : Int) := by
    rw [hinflight, BitVec.toInt_eq_toNat_of_lt]
    · rw [BitVec.toNat_ofNat, Nat.mod_eq_of_lt (by omega)]
    · rw [BitVec.toNat_ofNat, Nat.mod_eq_of_lt (by omega)]
      omega
  constructor <;> omega

/-- An exact counter has no drift, up to the range of an `int`. -/
theorem AtRest.drift_of_exact (h : s.AtRest depth n) (hexact : s.Exact) :
    BitVec.ofNat 32 n = 0 := by
  have hslots := h.slots
  have hcounter := h.drift.counter
  have hinflight : s.inflight = BitVec.ofNat 32 (s.pipeline.live + s.pipeline.queue.length) := by
    rw [← @BitVec.ofInt_toInt 32 s.inflight, hexact.held]
    exact BitVec.ofInt_natCast 32 (s.pipeline.live + s.pipeline.queue.length)
  rw [hinflight, ← BitVec.ofNat_add, Nat.add_comm, hslots, BitVec.ofNat_add] at hcounter
  exact BitVec.self_eq_add_right.mp hcounter

private theorem usable_of_bailsOut {s : Pipeline ρ} {op : Operation ρ} (h : op.bailsOut s = true) :
    op.Usable s := by
  have hobject : ∀ i, s.bailsOut i = true → s.Usable i := by
    intro i hi
    rw [Pipeline.bailsOut] at hi
    split at hi
    · rename_i c hc
      exact ⟨c, hc⟩
    · cases hi
  cases op with
  | complete i resource => exact hobject i h
  | destroy i => exact hobject i h
  | _ => cases h

private theorem bailOuts_eq_zero {ops : List (Operation ρ)} {s : Metered ρ}
    (h : ∀ before op after tr t, ops = before ++ op :: after →
      exec Metered.perform before s = some (tr, t) → op.bailsOut t.pipeline = false) :
    bailOuts ops s = 0 := by
  induction ops generalizing s with
  | nil => rfl
  | cons op ops ih =>
    rw [bailOuts, h [] op ops [] s rfl rfl]
    cases hop : Metered.perform op s with
    | none => rfl
    | some r =>
      obtain ⟨o, u⟩ := r
      have hrest : bailOuts ops u = 0 := by
        refine ih fun before op' after tr t heq hexec => ?_
        refine h (op :: before) op' after (o ++ tr) t (by rw [heq]; rfl) ?_
        exact exec_cons_eq_some.mpr ⟨o, u, tr, hop, hexec, rfl⟩
      rw [Option.elim_some, hrest]
      rfl

end Metered

end drift

/-- The counter is exact after each operation of a run from a new pipeline. -/
def ExactThroughout (depth : Nat) (ops : List (Operation ρ)) : Prop :=
  ∀ before after tr s, ops = before ++ after →
    exec Metered.perform before (.create depth) = some (tr, s) → s.Exact

/-- The counter is exact throughout a run if and only if no operation of the run ends a
continuation of `ProduceIfEmpty` while the queue is not empty. -/
theorem exactThroughout_iff (depth : Nat) (ops : List (Operation ρ)) :
    ExactThroughout depth ops ↔
      ∀ before op after tr s, ops = before ++ op :: after →
        exec Metered.perform before (.create depth) = some (tr, s) →
          op.bailsOut s.pipeline = false := by
  constructor
  · intro hexact before op after tr s heq hrun
    by_contra hnot
    have hbail : op.bailsOut s.pipeline = true := (Bool.not_eq_false _).mp hnot
    have hs := (Metered.atRest_create depth).run hrun
    have hzero := hs.drift_of_exact (hexact before (op :: after) tr s heq hrun)
    obtain ⟨o, t, hop⟩ := Metered.perform_of_usable hs.drift.balanced hs.calls
      (Metered.usable_of_bailsOut hbail)
    have hlonger : exec Metered.perform (before ++ [op]) (.create depth) =
        some (tr ++ (o ++ []), t) :=
      exec_append_eq_some.mpr ⟨s, tr, o ++ [], hrun, exec_cons_of_eq hop, rfl⟩
    have hone := (hs.perform hop).drift_of_exact
      (hexact (before ++ [op]) after _ t (by rw [heq, List.append_assoc]; rfl) hlonger)
    rw [hbail, BitVec.ofNat_add, hzero] at hone
    exact absurd hone (by decide)
  · intro hnone before after tr s heq hrun
    have hs := (Metered.atRest_create depth).run hrun
    have hzero : Metered.bailOuts before (.create depth : Metered ρ) = 0 := by
      refine Metered.bailOuts_eq_zero fun before' op after' tr' t heq' hrun' => ?_
      exact hnone before' op (after' ++ after) tr' t (by rw [heq, heq', List.append_assoc]; rfl)
        hrun'
    rw [hzero] at hs
    exact hs.exact

/-- Two slots are taken, the first is filled, and then the commit of `ProduceIfEmpty` finds the
queue non-empty. -/
def bailingOperations : List (Operation Nat) :=
  [.produce, .produceIfEmpty, .complete 0 (some 7), .complete 1 (some 8)]

/-- The counter stays at two when one slot is in use. -/
theorem bailOut_not_exact :
    ¬ (∀ (depth : Nat) (ops : List (Operation Nat)), ExactThroughout depth ops) ∧
    ∃ tr s, exec Metered.perform bailingOperations (.create 2) = some (tr, s) ∧
      s.inflight.toInt = 2 ∧ s.pipeline.live = 0 ∧ s.pipeline.queue = [(some 7, 1)] ∧
      s.pipeline.empty.count = 1 := by
  constructor
  · intro h
    have hexact := h 2 bailingOperations bailingOperations [] _ _ rfl rfl
    exact absurd hexact.held (by decide)
  · exact ⟨_, _, rfl, rfl, rfl, rfl, rfl⟩

end CppImprovement.Pipe
