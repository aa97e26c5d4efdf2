import CppImprovement.Core.Transition
import Mathlib.Data.List.Basic
import Mathlib.Algebra.Group.Nat.Defs

/-!
# The pipeline

`Pipeline` is a bounded queue between producers and a consumer. Free slots and filled slots
are counted by two semaphores that are updated apart from the queue itself, so every operation
falls into several atomic steps: the semaphore operations and the critical sections of
`queue_mutex_`. A producer holds its slot in a `ProducerContinuation`, an object that can be
moved, swapped, completed and destroyed; one thread at a time uses such an object.
-/

namespace CppImprovement.Pipe

variable {ρ : Type}

/-! ## Semaphores -/

/-- `LONG_MAX` of the platform. -/
def longMax : Nat := 2 ^ 31 - 1

/-- `PlatformSemaphore`: a count, and whether the semaphore could be created with it. -/
structure Semaphore where
  valid : Bool
  count : Nat
deriving DecidableEq

/-- The constructor; a count beyond `LONG_MAX` is refused. -/
def Semaphore.create (count : Nat) : Semaphore where
  valid := decide (count ≤ longMax)
  count := count

/-- `TryWait`: the semaphore after it was decremented, if it could be. -/
def Semaphore.tryWait (s : Semaphore) : Option Semaphore :=
  if s.valid = true ∧ 0 < s.count then some { s with count := s.count - 1 } else none

/-- `Signal`; the count never exceeds `LONG_MAX`. -/
def Semaphore.signal (s : Semaphore) : Semaphore :=
  if s.valid = true ∧ s.count < longMax then { s with count := s.count + 1 } else s

/-! ## Objects and calls -/

/-- What a continuation calls: `ProducerCommit` or `ProducerCommitIfEmpty`. -/
inductive Commit
  | always
  | ifEmpty
deriving DecidableEq

/-- `ProducerContinuation`; a null `continuation_` is `none`. -/
structure ProducerContinuation where
  continuation : Option Commit
  traceId : Nat
deriving DecidableEq

/-- An object that holds a `ProducerContinuation`: it can be used, or its commit has pushed and
has still to signal (from `Complete` with a resource, or from the destructor), or it is gone. -/
inductive Object (ρ : Type)
  | alive (c : ProducerContinuation)
  | completing (traceId : Nat) (resource : Option ρ)
  | destroying (traceId : Nat)
  | destroyed

/-- A call of `Consume` that is under way: it has the semaphore, or it has popped a resource and
runs the consumer. -/
inductive Frame (ρ : Type)
  | taken
  | popped (resource : Option ρ) (itemsCount : Nat)

/-- `PipelineConsumeResult`. -/
inductive PipelineConsumeResult
  | noneAvailable
  | done
  | moreAvailable
deriving DecidableEq

/-- The pipeline with the objects and calls of all threads; `calls` holds the calls of `Consume`,
the innermost first, since a consumer may call `Consume` itself. -/
structure Pipeline (ρ : Type) where
  depth : Nat
  empty : Semaphore
  available : Semaphore
  queue : List (Option ρ × Nat)
  objects : List (Object ρ)
  calls : List (Frame ρ)
  lastTraceId : Nat

/-- `Pipeline(depth)`. -/
def Pipeline.create (depth : Nat) : Pipeline ρ where
  depth := depth
  empty := .create depth
  available := .create 0
  queue := []
  objects := []
  calls := []
  lastTraceId := 0

/-- An atomic step of some thread; the numbers name objects. -/
inductive Step (ρ : Type)
  | construct
  | produce (commit : Commit)
  | moveConstruct (source : Nat)
  | moveAssign (target source : Nat)
  | complete (i : Nat) (resource : Option ρ)
  | destroy (i : Nat)
  | signal (i : Nat)
  | consume (nonNull : Bool)
  | pop
  | release

/-- What a step shows: a locked push or pop, and the end of `Complete` or `Consume`. -/
inductive Event (ρ : Type)
  | pushed (i traceId : Nat) (resource : Option ρ) (complete : Bool)
  | popped (resource : Option ρ) (traceId : Nat)
  | completed (i traceId : Nat) (resource : Option ρ) (result : Bool)
  | consumed (result : PipelineConsumeResult)

namespace Pipeline

/-- `ProducerContinuation()`. -/
def emptyContinuation : ProducerContinuation where
  continuation := none
  traceId := 0

/-- A new object. -/
def construct (s : Pipeline ρ) (c : ProducerContinuation) : Pipeline ρ :=
  { s with objects := s.objects ++ [.alive c] }

/-- An object changes. -/
def setObject (s : Pipeline ρ) (i : Nat) (o : Object ρ) : Pipeline ρ :=
  { s with objects := s.objects.set i o }

/-- `Produce` and `ProduceIfEmpty`: the slot is taken, and the new object holds it. -/
def produce (commit : Commit) (s : Pipeline ρ) : Pipeline ρ :=
  match s.empty.tryWait with
  | none => s.construct emptyContinuation
  | some empty =>
    { s with empty := empty, lastTraceId := s.lastTraceId + 1 }.construct
      { continuation := some commit, traceId := s.lastTraceId + 1 }

/-- The critical section of `ProducerCommitIfEmpty` gives the slot back if the queue is not
empty. -/
def bails (commit : Commit) (s : Pipeline ρ) : Bool :=
  match commit with
  | .always => false
  | .ifEmpty => !s.queue.isEmpty

/-- The locked push of a commit. -/
def push (resource : Option ρ) (traceId : Nat) (s : Pipeline ρ) : Pipeline ρ :=
  { s with queue := s.queue ++ [(resource, traceId)] }

/-- `Complete` up to the end of the critical section. -/
def complete (i : Nat) (resource : Option ρ) (s : Pipeline ρ) :
    Option (List (Event ρ) × Pipeline ρ) :=
  match s.objects[i]? with
  | some (.alive c) =>
    match c.continuation with
    | none => some ([.completed i c.traceId resource false], s)
    | some commit =>
      if s.bails commit then
        some ([.completed i c.traceId resource false],
          { s with empty := s.empty.signal }.setObject i (.alive { c with continuation := none }))
      else
        some ([.pushed i c.traceId resource true],
          (s.push resource c.traceId).setObject i (.completing c.traceId resource))
  | _ => none

/-- The destructor up to the end of the critical section. -/
def destroy (i : Nat) (s : Pipeline ρ) : Option (List (Event ρ) × Pipeline ρ) :=
  match s.objects[i]? with
  | some (.alive c) =>
    match c.continuation with
    | none => some ([], s.setObject i .destroyed)
    | some commit =>
      if s.bails commit then
        some ([], { s with empty := s.empty.signal }.setObject i .destroyed)
      else
        some ([.pushed i c.traceId none false],
          (s.push none c.traceId).setObject i (.destroying c.traceId))
  | _ => none

/-- The signal that ends a commit, and with it `Complete` or the destructor. -/
def signal (i : Nat) (s : Pipeline ρ) : Option (List (Event ρ) × Pipeline ρ) :=
  match s.objects[i]? with
  | some (.completing traceId resource) =>
    some ([.completed i traceId resource true],
      { s with available := s.available.signal }.setObject i
        (.alive { continuation := none, traceId := traceId }))
  | some (.destroying _) =>
    some ([], { s with available := s.available.signal }.setObject i .destroyed)
  | _ => none

/-- Whether the consumer's thread can call `Consume`: it is in no call, or in its own function. -/
def callable (s : Pipeline ρ) : Bool :=
  match s.calls with
  | .taken :: _ => false
  | _ => true

/-- `Consume` up to `TryWait`. -/
def consume (nonNull : Bool) (s : Pipeline ρ) : Option (List (Event ρ) × Pipeline ρ) :=
  if s.callable then
    if nonNull then
      match s.available.tryWait with
      | none => some ([.consumed .noneAvailable], s)
      | some available => some ([], { s with available := available, calls := .taken :: s.calls })
    else some ([.consumed .noneAvailable], s)
  else none

/-- The critical section of `Consume`; `front` must not be called on an empty queue. -/
def pop (s : Pipeline ρ) : Option (List (Event ρ) × Pipeline ρ) :=
  match s.calls, s.queue with
  | .taken :: calls, (resource, traceId) :: queue =>
    some ([.popped resource traceId],
      { s with queue := queue, calls := .popped resource queue.length :: calls })
  | _, _ => none

/-- The end of `Consume`, after the consumer has returned. -/
def release (s : Pipeline ρ) : Option (List (Event ρ) × Pipeline ρ) :=
  match s.calls with
  | .popped _ itemsCount :: calls =>
    some ([.consumed (if itemsCount > 0 then .moreAvailable else .done)],
      { s with empty := s.empty.signal, calls := calls })
  | _ => none

/-- `ProducerContinuation(ProducerContinuation&&)`. -/
def moveConstruct (source : Nat) (s : Pipeline ρ) : Option (List (Event ρ) × Pipeline ρ) :=
  match s.objects[source]? with
  | some (.alive c) => some ([], (s.setObject source (.alive emptyContinuation)).construct c)
  | _ => none

/-- `operator=(ProducerContinuation&&)` swaps the two objects. -/
def moveAssign (target source : Nat) (s : Pipeline ρ) : Option (List (Event ρ) × Pipeline ρ) :=
  match s.objects[target]?, s.objects[source]? with
  | some (.alive c), some (.alive c') =>
    some ([], (s.setObject target (.alive c')).setObject source (.alive c))
  | _, _ => none

/-- One step. -/
def step : Step ρ → Pipeline ρ → Option (List (Event ρ) × Pipeline ρ)
  | .construct, s => some ([], s.construct emptyContinuation)
  | .produce commit, s => some ([], s.produce commit)
  | .moveConstruct source, s => s.moveConstruct source
  | .moveAssign target source, s => s.moveAssign target source
  | .complete i resource, s => s.complete i resource
  | .destroy i, s => s.destroy i
  | .signal i, s => s.signal i
  | .consume nonNull, s => s.consume nonNull
  | .pop, s => s.pop
  | .release, s => s.release

/-! ## What a step can do -/

section inversion

variable {s t : Pipeline ρ} {o : List (Event ρ)} {i j : Nat} {resource : Option ρ}

theorem produce_cases (commit : Commit) (s : Pipeline ρ) :
    s.produce commit = s.construct emptyContinuation ∨
      (s.empty.valid = true ∧ 0 < s.empty.count ∧ s.produce commit =
        { s with
          empty := { s.empty with count := s.empty.count - 1 }
          lastTraceId := s.lastTraceId + 1 }.construct
            { continuation := some commit, traceId := s.lastTraceId + 1 }) := by
  rw [produce, Semaphore.tryWait]
  by_cases h : s.empty.valid = true ∧ 0 < s.empty.count
  · rw [if_pos h]
    exact Or.inr ⟨h.1, h.2, rfl⟩
  · rw [if_neg h]
    exact Or.inl rfl

theorem complete_cases (h : s.complete i resource = some (o, t)) :
    ∃ c, s.objects[i]? = some (.alive c) ∧
      (c.continuation = none ∧ o = [.completed i c.traceId resource false] ∧ t = s ∨
      ∃ commit, c.continuation = some commit ∧
        (s.bails commit = true ∧ o = [.completed i c.traceId resource false] ∧
          t = { s with empty := s.empty.signal }.setObject i
            (.alive { c with continuation := none }) ∨
        s.bails commit = false ∧ o = [.pushed i c.traceId resource true] ∧
          t = (s.push resource c.traceId).setObject i (.completing c.traceId resource))) := by
  rw [complete] at h
  split at h
  · rename_i c hc
    refine ⟨c, hc, ?_⟩
    split at h
    · rename_i hn
      cases h
      exact Or.inl ⟨hn, rfl, rfl⟩
    · rename_i commit hk
      refine Or.inr ⟨commit, hk, ?_⟩
      split at h
      · rename_i hb
        cases h
        exact Or.inl ⟨hb, rfl, rfl⟩
      · rename_i hb
        cases h
        exact Or.inr ⟨Bool.eq_false_iff.mpr hb, rfl, rfl⟩
  · cases h

theorem destroy_cases (h : s.destroy i = some (o, t)) :
    ∃ c, s.objects[i]? = some (.alive c) ∧
      (c.continuation = none ∧ o = [] ∧ t = s.setObject i .destroyed ∨
      ∃ commit, c.continuation = some commit ∧
        (s.bails commit = true ∧ o = [] ∧
          t = { s with empty := s.empty.signal }.setObject i .destroyed ∨
        s.bails commit = false ∧ o = [.pushed i c.traceId none false] ∧
          t = (s.push none c.traceId).setObject i (.destroying c.traceId))) := by
  rw [destroy] at h
  split at h
  · rename_i c hc
    refine ⟨c, hc, ?_⟩
    split at h
    · rename_i hn
      cases h
      exact Or.inl ⟨hn, rfl, rfl⟩
    · rename_i commit hk
      refine Or.inr ⟨commit, hk, ?_⟩
      split at h
      · rename_i hb
        cases h
        exact Or.inl ⟨hb, rfl, rfl⟩
      · rename_i hb
        cases h
        exact Or.inr ⟨Bool.eq_false_iff.mpr hb, rfl, rfl⟩
  · cases h

theorem signal_cases (h : s.signal i = some (o, t)) :
    (∃ traceId resource, s.objects[i]? = some (.completing traceId resource) ∧
      o = [.completed i traceId resource true] ∧
      t = { s with available := s.available.signal }.setObject i
        (.alive { continuation := none, traceId := traceId })) ∨
    ∃ traceId, s.objects[i]? = some (.destroying traceId) ∧ o = [] ∧
      t = { s with available := s.available.signal }.setObject i .destroyed := by
  rw [signal] at h
  split at h
  · rename_i traceId resource ho
    cases h
    exact Or.inl ⟨traceId, resource, ho, rfl, rfl⟩
  · rename_i traceId ho
    cases h
    exact Or.inr ⟨traceId, ho, rfl, rfl⟩
  · cases h

theorem consume_cases {nonNull : Bool} (h : s.consume nonNull = some (o, t)) :
    (o = [.consumed .noneAvailable] ∧ t = s) ∨
      (s.available.valid = true ∧ 0 < s.available.count ∧ o = [] ∧
        t = { s with
          available := { s.available with count := s.available.count - 1 }
          calls := .taken :: s.calls }) := by
  rw [consume] at h
  split at h
  · split at h
    · rw [Semaphore.tryWait] at h
      by_cases hc : s.available.valid = true ∧ 0 < s.available.count
      · rw [if_pos hc] at h
        cases h
        exact Or.inr ⟨hc.1, hc.2, rfl, rfl⟩
      · rw [if_neg hc] at h
        cases h
        exact Or.inl ⟨rfl, rfl⟩
    · cases h
      exact Or.inl ⟨rfl, rfl⟩
  · cases h

theorem pop_cases (h : s.pop = some (o, t)) :
    ∃ calls resource traceId queue, s.calls = .taken :: calls ∧
      s.queue = (resource, traceId) :: queue ∧ o = [.popped resource traceId] ∧
      t = { s with queue := queue, calls := .popped resource queue.length :: calls } := by
  rw [pop] at h
  split at h
  · rename_i calls resource traceId queue hcalls hqueue
    cases h
    exact ⟨calls, resource, traceId, queue, hcalls, hqueue, rfl, rfl⟩
  · cases h

theorem release_cases (h : s.release = some (o, t)) :
    ∃ resource itemsCount calls, s.calls = .popped resource itemsCount :: calls ∧
      o = [.consumed (if itemsCount > 0 then .moreAvailable else .done)] ∧
      t = { s with empty := s.empty.signal, calls := calls } := by
  rw [release] at h
  split at h
  · rename_i resource itemsCount calls hcalls
    cases h
    exact ⟨resource, itemsCount, calls, hcalls, rfl, rfl⟩
  · cases h

theorem moveConstruct_cases (h : s.moveConstruct i = some (o, t)) :
    ∃ c, s.objects[i]? = some (.alive c) ∧ o = [] ∧
      t = (s.setObject i (.alive emptyContinuation)).construct c := by
  rw [moveConstruct] at h
  split at h
  · rename_i c hc
    cases h
    exact ⟨c, hc, rfl, rfl⟩
  · cases h

theorem moveAssign_cases (h : s.moveAssign i j = some (o, t)) :
    ∃ c c', s.objects[i]? = some (.alive c) ∧ s.objects[j]? = some (.alive c') ∧ o = [] ∧
      t = (s.setObject i (.alive c')).setObject j (.alive c) := by
  rw [moveAssign] at h
  split at h
  · rename_i c c' hc hc'
    cases h
    exact ⟨c, c', hc, hc', rfl, rfl⟩
  · cases h

end inversion

/-! ## Accounting of the slots -/

end Pipeline

/-- The object holds a slot and has not committed. -/
def Object.live : Object ρ → Bool
  | .alive c => c.continuation.isSome
  | _ => false

/-- The commit of the object has pushed and has not signalled. -/
def Object.committing : Object ρ → Bool
  | .completing _ _ => true
  | .destroying _ => true
  | _ => false

/-- The call has taken the semaphore and has not popped. -/
def Frame.isTaken : Frame ρ → Bool
  | .taken => true
  | .popped _ _ => false

namespace Pipeline

/-- The number of live continuations that have not committed. -/
def live (s : Pipeline ρ) : Nat := s.objects.countP Object.live

/-- The number of commits between their push and their signal. -/
def committing (s : Pipeline ρ) : Nat := s.objects.countP Object.committing

/-- The number of calls between the semaphore and the pop. -/
def taken (s : Pipeline ρ) : Nat := s.calls.countP Frame.isTaken

/-- The number of popped resources whose slot is not released. -/
def unreleased (s : Pipeline ρ) : Nat := s.calls.countP fun f => !f.isTaken

private theorem countP_set_add {α : Type} (p : α → Bool) {l : List α} {i : Nat} {a : α} (b : α)
    (h : l[i]? = some a) :
    (l.set i b).countP p + (p a).toNat = l.countP p + (p b).toNat := by
  induction l generalizing i with
  | nil => cases h
  | cons x l ih =>
    cases i with
    | zero =>
      cases h
      rw [List.set_cons_zero, List.countP_cons, List.countP_cons]
      cases p a <;> cases p b <;> simp
    | succ i =>
      have := ih h
      rw [List.set_cons_succ, List.countP_cons, List.countP_cons]
      omega

/-- Both counts of the objects after one of them has changed. -/
theorem counts_setObject {s : Pipeline ρ} {i : Nat} {a : Object ρ} (o : Object ρ)
    (h : s.objects[i]? = some a) :
    (s.setObject i o).live + a.live.toNat = s.live + o.live.toNat ∧
      (s.setObject i o).committing + a.committing.toNat = s.committing + o.committing.toNat :=
  ⟨countP_set_add _ o h, countP_set_add _ o h⟩

private theorem counts_construct (s : Pipeline ρ) (c : ProducerContinuation) :
    (s.construct c).live = s.live + c.continuation.isSome.toNat ∧
      (s.construct c).committing = s.committing := by
  constructor
  · rw [live, construct, List.countP_append, List.countP_singleton, live, Object.live]
    cases c.continuation <;> rfl
  · rw [committing, construct, List.countP_append]
    rfl

/-- The counts of semaphores, objects, queue and calls fit together. -/
structure Balanced (depth : Nat) (s : Pipeline ρ) : Prop where
  depth_eq : s.depth = depth
  slots : s.empty.count + s.live + s.queue.length + s.unreleased = depth
  filled : s.available.count + s.taken + s.committing = s.queue.length
  available_valid : s.available.valid = true
  empty_valid : s.empty.valid = true → depth ≤ longMax
  empty_invalid : s.empty.valid = false → s.empty.count = depth

theorem balanced_create (depth : Nat) : (create depth : Pipeline ρ).Balanced depth where
  depth_eq := rfl
  slots := rfl
  filled := rfl
  available_valid := rfl
  empty_valid h := of_decide_eq_true h
  empty_invalid _ := rfl

section balance

variable {depth : Nat} {s : Pipeline ρ}

/-- A slot that is in use can be given back. -/
theorem Balanced.signal_empty (h : s.Balanced depth) (hlt : s.empty.count < depth) :
    s.empty.signal = { s.empty with count := s.empty.count + 1 } := by
  have hvalid : s.empty.valid = true := by
    cases hv : s.empty.valid with
    | true => rfl
    | false => exact absurd (h.empty_invalid hv) (Nat.ne_of_lt hlt)
  have hle := h.empty_valid hvalid
  rw [Semaphore.signal, if_pos ⟨hvalid, Nat.lt_of_lt_of_le hlt hle⟩]

/-- A pushed item can be signalled. -/
theorem Balanced.signal_available (h : s.Balanced depth)
    (hlt : s.available.count < s.queue.length) :
    s.available.signal = { s.available with count := s.available.count + 1 } := by
  have hslots := h.slots
  have hvalid : s.empty.valid = true := by
    cases hv : s.empty.valid with
    | true => rfl
    | false =>
      have := h.empty_invalid hv
      omega
  have hle := h.empty_valid hvalid
  rw [Semaphore.signal, if_pos ⟨h.available_valid, by omega⟩]

theorem Balanced.construct (h : s.Balanced depth) :
    (s.construct emptyContinuation).Balanced depth := by
  obtain ⟨hlive, hcommitting⟩ := counts_construct s emptyContinuation
  refine { h with slots := ?_, filled := ?_ }
  · have := h.slots
    rw [hlive]
    exact this
  · have := h.filled
    rw [hcommitting]
    exact this

theorem Balanced.produce (h : s.Balanced depth) (commit : Commit) :
    (s.produce commit).Balanced depth := by
  rcases produce_cases commit s with heq | ⟨hvalid, hpos, heq⟩
  · rw [heq]
    exact h.construct
  · rw [heq]
    have hslots := h.slots
    have hfilled := h.filled
    refine { h with slots := ?_, filled := ?_, empty_valid := ?_, empty_invalid := ?_ }
    · rw [(counts_construct _ _).1]
      change s.empty.count - 1 + (s.live + 1) + s.queue.length + s.unreleased = depth
      omega
    · rw [(counts_construct _ _).2]
      exact hfilled
    · exact h.empty_valid
    · intro hinvalid
      rw [show s.empty.valid = false from hinvalid] at hvalid
      cases hvalid

/-- A continuation without a slot takes another place. -/
theorem Balanced.setObject (h : s.Balanced depth) {i : Nat} {a o : Object ρ}
    (ha : s.objects[i]? = some a) (hlive : o.live = a.live)
    (hcommitting : o.committing = a.committing) : (s.setObject i o).Balanced depth := by
  obtain ⟨hl, hc⟩ := counts_setObject o ha
  rw [hlive] at hl
  rw [hcommitting] at hc
  have hslots := h.slots
  have hfilled := h.filled
  refine { h with slots := ?_, filled := ?_ }
  · change s.empty.count + (s.setObject i o).live + s.queue.length + s.unreleased = depth
    omega
  · change s.available.count + s.taken + (s.setObject i o).committing = s.queue.length
    omega

/-- A live continuation gives its slot back without a push. -/
theorem Balanced.bail (h : s.Balanced depth) {i : Nat} {a o : Object ρ}
    (ha : s.objects[i]? = some a) (hlive : a.live = true) (ho : o.live = false)
    (hcommitting : o.committing = a.committing) :
    ({ s with empty := s.empty.signal }.setObject i o).Balanced depth := by
  obtain ⟨hl, hc⟩ := counts_setObject o ha
  rw [hlive, ho] at hl
  rw [hcommitting] at hc
  have hslots := h.slots
  have hfilled := h.filled
  have hpos : (s.setObject i o).live + 1 = s.live := hl
  have hsignal := h.signal_empty (by omega)
  refine { h with slots := ?_, filled := ?_, empty_valid := ?_, empty_invalid := ?_ }
  · change s.empty.signal.count + (s.setObject i o).live + s.queue.length + s.unreleased = depth
    rw [hsignal]
    change s.empty.count + 1 + _ + _ + _ = depth
    omega
  · change s.available.count + s.taken + (s.setObject i o).committing = s.queue.length
    omega
  · change s.empty.signal.valid = true → _
    rw [hsignal]
    exact h.empty_valid
  · change s.empty.signal.valid = false → _
    rw [hsignal]
    intro hinvalid
    have := h.empty_invalid hinvalid
    omega

/-- A live continuation turns its slot into an item of the queue. -/
theorem Balanced.push (h : s.Balanced depth) {i traceId : Nat} {resource : Option ρ}
    {a o : Object ρ} (ha : s.objects[i]? = some a) (hlive : a.live = true)
    (ha' : a.committing = false) (ho : o.live = false) (ho' : o.committing = true) :
    ((s.push resource traceId).setObject i o).Balanced depth := by
  obtain ⟨hl, hc⟩ := counts_setObject o ha
  rw [hlive, ho] at hl
  rw [ha', ho'] at hc
  have hslots := h.slots
  have hfilled := h.filled
  have hl' : (s.setObject i o).live + 1 = s.live := hl
  have hc' : (s.setObject i o).committing = s.committing + 1 := hc
  have hlen : ((s.push resource traceId).setObject i o).queue.length = s.queue.length + 1 := by
    change (s.queue ++ [(resource, traceId)]).length = _
    rw [List.length_append]
    rfl
  refine { h with slots := ?_, filled := ?_ }
  · rw [hlen]
    change s.empty.count + (s.setObject i o).live + (s.queue.length + 1) + s.unreleased = depth
    omega
  · rw [hlen]
    change s.available.count + s.taken + (s.setObject i o).committing = s.queue.length + 1
    omega

/-- A commit signals the item it has pushed. -/
theorem Balanced.signalled (h : s.Balanced depth) {i : Nat} {a o : Object ρ}
    (ha : s.objects[i]? = some a) (ha' : a.committing = true) (ho' : o.committing = false)
    (hlive : o.live = a.live) :
    ({ s with available := s.available.signal }.setObject i o).Balanced depth := by
  obtain ⟨hl, hc⟩ := counts_setObject o ha
  rw [hlive] at hl
  rw [ha', ho'] at hc
  have hslots := h.slots
  have hfilled := h.filled
  have hc' : (s.setObject i o).committing + 1 = s.committing := hc
  have hsignal := h.signal_available (by omega)
  refine { h with slots := ?_, filled := ?_, available_valid := ?_ }
  · change s.empty.count + (s.setObject i o).live + s.queue.length + s.unreleased = depth
    omega
  · change s.available.signal.count + s.taken + (s.setObject i o).committing = s.queue.length
    rw [hsignal]
    change s.available.count + 1 + _ + _ = _
    omega
  · change s.available.signal.valid = true
    rw [hsignal]
    exact h.available_valid

/-- After the first half of a swap both objects hold the same. -/
theorem objects_setObject_swap {i j : Nat} {a b : Object ρ} (ha : s.objects[i]? = some a)
    (hb : s.objects[j]? = some b) : (s.setObject i b).objects[j]? = some b := by
  change (s.objects.set i b)[j]? = some b
  by_cases hij : i = j
  · have hlt : i < s.objects.length := (List.getElem?_eq_some_iff.mp ha).1
    rw [List.getElem?_set, if_pos hij, if_pos hlt]
  · rw [List.getElem?_set, if_neg hij, hb]

theorem Balanced.swap (h : s.Balanced depth) {i j : Nat} {a b : Object ρ}
    (ha : s.objects[i]? = some a) (hb : s.objects[j]? = some b) :
    ((s.setObject i b).setObject j a).Balanced depth := by
  obtain ⟨hl, hc⟩ := counts_setObject b ha
  obtain ⟨hl', hc'⟩ := counts_setObject a (objects_setObject_swap ha hb)
  have hslots := h.slots
  have hfilled := h.filled
  refine { h with slots := ?_, filled := ?_ }
  · change s.empty.count + ((s.setObject i b).setObject j a).live + s.queue.length +
      s.unreleased = depth
    omega
  · change s.available.count + s.taken + ((s.setObject i b).setObject j a).committing =
      s.queue.length
    omega

/-- The new object takes over what the old one held. -/
theorem Balanced.moveConstruct (h : s.Balanced depth) {i : Nat} {c : ProducerContinuation}
    (hc : s.objects[i]? = some (.alive c)) :
    ((s.setObject i (.alive emptyContinuation)).construct c).Balanced depth := by
  obtain ⟨hl, hco⟩ := counts_setObject (.alive emptyContinuation) hc
  obtain ⟨hl', hco'⟩ := counts_construct (s.setObject i (.alive emptyContinuation)) c
  have hslots := h.slots
  have hfilled := h.filled
  have hlive : (s.setObject i (.alive emptyContinuation)).live +
      c.continuation.isSome.toNat = s.live := hl
  have hcommitting : (s.setObject i (.alive emptyContinuation)).committing = s.committing := hco
  refine { h with slots := ?_, filled := ?_ }
  · rw [hl']
    change s.empty.count + (_ + _) + s.queue.length + s.unreleased = depth
    omega
  · rw [hco']
    change s.available.count + s.taken + _ = s.queue.length
    omega

/-- Every step keeps the balance. -/
theorem Balanced.step (h : s.Balanced depth) {i : Step ρ} {o : List (Event ρ)} {t : Pipeline ρ}
    (hstep : Pipeline.step i s = some (o, t)) : t.Balanced depth := by
  have hslots := h.slots
  have hfilled := h.filled
  cases i with
  | construct =>
    cases hstep
    exact h.construct
  | produce commit =>
    cases hstep
    exact h.produce commit
  | moveConstruct source =>
    obtain ⟨c, hc, -, rfl⟩ := moveConstruct_cases hstep
    exact h.moveConstruct hc
  | moveAssign target source =>
    obtain ⟨c, c', hc, hc', -, rfl⟩ := moveAssign_cases hstep
    exact h.swap hc hc'
  | complete i resource =>
    obtain ⟨c, hc, ⟨-, -, rfl⟩ | ⟨commit, hk, ⟨-, -, rfl⟩ | ⟨-, -, rfl⟩⟩⟩ := complete_cases hstep
    · exact h
    · exact h.bail hc (by rw [Object.live, hk]; rfl) rfl rfl
    · exact h.push hc (by rw [Object.live, hk]; rfl) rfl rfl rfl
  | destroy i =>
    obtain ⟨c, hc, ⟨hn, -, rfl⟩ | ⟨commit, hk, ⟨-, -, rfl⟩ | ⟨-, -, rfl⟩⟩⟩ := destroy_cases hstep
    · exact h.setObject hc (by simp [Object.live, hn]) rfl
    · exact h.bail hc (by rw [Object.live, hk]; rfl) rfl rfl
    · exact h.push hc (by rw [Object.live, hk]; rfl) rfl rfl rfl
  | signal i =>
    obtain ⟨traceId, resource, hi, -, rfl⟩ | ⟨traceId, hi, -, rfl⟩ := signal_cases hstep
    · exact h.signalled hi rfl rfl rfl
    · exact h.signalled hi rfl rfl rfl
  | consume nonNull =>
    obtain ⟨-, rfl⟩ | ⟨-, hpos, -, rfl⟩ := consume_cases hstep
    · exact h
    · refine { h with slots := ?_, filled := ?_ }
      · exact hslots
      · change s.available.count - 1 + (Frame.taken :: s.calls).countP Frame.isTaken +
          s.committing = s.queue.length
        rw [List.countP_cons_of_pos rfl]
        change s.available.count - 1 + (s.taken + 1) + s.committing = s.queue.length
        omega
  | pop =>
    obtain ⟨calls, resource, traceId, queue, hcalls, hqueue, -, rfl⟩ := pop_cases hstep
    have htaken : s.taken = calls.countP Frame.isTaken + 1 := by
      rw [taken, hcalls, List.countP_cons_of_pos rfl]
    have hunreleased : s.unreleased = calls.countP fun f => !f.isTaken := by
      rw [unreleased, hcalls, List.countP_cons_of_neg (by simp [Frame.isTaken])]
    have hlength : s.queue.length = queue.length + 1 := by
      rw [hqueue, List.length_cons]
    refine { h with slots := ?_, filled := ?_ }
    · change s.empty.count + s.live + queue.length +
        (Frame.popped resource queue.length :: calls).countP (fun f => !f.isTaken) = depth
      rw [List.countP_cons_of_pos rfl]
      omega
    · change s.available.count +
        (Frame.popped resource queue.length :: calls).countP Frame.isTaken +
        s.committing = queue.length
      rw [List.countP_cons_of_neg (by simp [Frame.isTaken])]
      omega
  | release =>
    obtain ⟨resource, itemsCount, calls, hcalls, -, rfl⟩ := release_cases hstep
    have htaken : s.taken = calls.countP Frame.isTaken := by
      rw [taken, hcalls, List.countP_cons_of_neg (by simp [Frame.isTaken])]
    have hunreleased : s.unreleased = (calls.countP fun f => !f.isTaken) + 1 := by
      rw [unreleased, hcalls, List.countP_cons_of_pos rfl]
    have hsignal := h.signal_empty (by omega)
    refine { h with slots := ?_, filled := ?_, empty_valid := ?_, empty_invalid := ?_ }
    · change s.empty.signal.count + s.live + s.queue.length +
        (calls.countP fun f => !f.isTaken) = depth
      rw [hsignal]
      change s.empty.count + 1 + _ + _ + _ = depth
      omega
    · change s.available.count + calls.countP Frame.isTaken + s.committing = s.queue.length
      omega
    · change s.empty.signal.valid = true → _
      rw [hsignal]
      exact h.empty_valid
    · change s.empty.signal.valid = false → _
      rw [hsignal]
      intro hinvalid
      have := h.empty_invalid hinvalid
      omega

theorem balanced_of_run {steps : List (Step ρ)} {tr : List (Event ρ)}
    (hrun : exec Pipeline.step steps (create depth) = some (tr, s)) : s.Balanced depth :=
  exec_keeps (fun _ _ _ _ h hs => Balanced.step h hs) (balanced_create depth) hrun

end balance

/-- In every state that any interleaving reaches, free slots, live continuations, queued items
and popped resources add up to the depth; the queue stays within the depth, and `Consume` finds
it non-empty when it calls `front`. -/
theorem slots_conserved {depth : Nat} {steps : List (Step ρ)} {tr : List (Event ρ)}
    {s : Pipeline ρ} (hrun : exec step steps (create depth) = some (tr, s)) :
    s.empty.count + s.live + s.queue.length + s.unreleased = depth ∧
      s.queue.length ≤ depth ∧ ∀ calls, s.calls = .taken :: calls → s.queue ≠ [] := by
  have h := balanced_of_run hrun
  have hslots := h.slots
  have hfilled := h.filled
  refine ⟨hslots, by omega, fun calls hcalls hqueue => ?_⟩
  have htaken : s.taken = calls.countP Frame.isTaken + 1 := by
    rw [taken, hcalls, List.countP_cons_of_pos rfl]
  rw [hqueue, List.length_nil] at hfilled
  omega

/-- Two slots, one item in the queue, one continuation that was moved, and a consumer that has
the semaphore. -/
def pushAndConsume : List (Step Nat) :=
  [.produce .always, .produce .ifEmpty, .moveConstruct 1, .complete 0 (some 7), .signal 0,
    .consume true]

theorem slots_conserved_sample :
    ∃ tr s, exec step pushAndConsume (create 2) = some (tr, s) ∧ s.live = 1 ∧
      s.empty.count + s.live + s.queue.length + s.unreleased = 2 := by
  refine ⟨_, _, rfl, rfl, ?_⟩
  exact (@slots_conserved Nat 2 pushAndConsume _ _ rfl).1

end Pipeline

end CppImprovement.Pipe
