import CppImprovement.Pipeline.Inflight

/-!
# The pipeline as a bounded buffer

What the pipeline is for can be said without semaphores. A buffer has some slots; a producer is
granted one as long as not all are in use, and fills it or gives it back; a consumer is given what
was filled first, and its slot is free again when it returns. After any interleaving of the
threads, as soon as no call is between its two critical steps, the pipeline answers every further
call as that buffer does.
-/

namespace CppImprovement.Pipe

variable {ρ : Type}

/-! ## The buffer -/

/-- A continuation, with the way to fill its slot if it holds one, or a place where there is none
any more. -/
inductive Slot
  | alive (held : Option Commit)
  | gone
deriving DecidableEq

/-- The continuation stands for a slot. -/
def Slot.isHeld : Slot → Bool
  | .alive (some _) => true
  | _ => false

/-- A call of a thread. A call of `Consume` has two ends: the consumer is given a resource, and
returns. -/
inductive Act (ρ : Type)
  | construct
  | produce (commit : Commit)
  | moveConstruct (source : Nat)
  | moveAssign (target source : Nat)
  | complete (i : Nat) (resource : Option ρ)
  | destroy (i : Nat)
  | consume (nonNull : Bool)
  | finish

/-- What the caller sees: whether the new continuation holds a slot, the result of `Complete`, the
resource that the consumer is given, and the result of `Consume`. -/
inductive Answer (ρ : Type)
  | slot (granted : Bool)
  | completed (result : Bool)
  | resource (resource : Option ρ)
  | consumed (result : PipelineConsumeResult)
deriving DecidableEq

/-- The continuations, what was filled and not consumed, and for every consumer that runs whether
there was more behind what it was given. -/
structure Buffer (ρ : Type) where
  capacity : Nat
  slots : List Slot
  items : List (Option ρ)
  consumers : List Bool

namespace Buffer

/-- The number of slots in use. -/
def used (b : Buffer ρ) : Nat :=
  b.slots.countP Slot.isHeld + b.items.length + b.consumers.length

/-- A new continuation. -/
def add (held : Option Commit) (b : Buffer ρ) : Buffer ρ :=
  { b with slots := b.slots ++ [.alive held] }

/-- What a continuation holds, if there is one. -/
def find (b : Buffer ρ) (i : Nat) : Option (Option Commit) :=
  match b.slots[i]? with
  | some (.alive held) => some held
  | _ => none

/-- A continuation changes. -/
def put (i : Nat) (slot : Slot) (b : Buffer ρ) : Buffer ρ := { b with slots := b.slots.set i slot }

/-- A slot that was meant for an empty buffer is not filled. -/
def refuses (commit : Commit) (b : Buffer ρ) : Bool :=
  match commit with
  | .always => false
  | .ifEmpty => !b.items.isEmpty

/-- A slot is filled or given back. -/
def settle (i : Nat) (commit : Commit) (resource : Option ρ) (after : Slot) (b : Buffer ρ) :
    Buffer ρ :=
  if b.refuses commit then b.put i after
  else { b with items := b.items ++ [resource] }.put i after

/-- A call on the buffer. -/
def act : Act ρ → Buffer ρ → Option (List (Answer ρ) × Buffer ρ)
  | .construct, b => some ([], b.add none)
  | .produce commit, b =>
    if b.used < b.capacity then some ([.slot true], b.add (some commit))
    else some ([.slot false], b.add none)
  | .moveConstruct source, b =>
    (b.find source).map fun held => ([], (b.put source (.alive none)).add held)
  | .moveAssign target source, b => do
    let held ← b.find target
    let held' ← b.find source
    return ([], (b.put target (.alive held')).put source (.alive held))
  | .complete i resource, b =>
    (b.find i).map fun
      | none => ([.completed false], b)
      | some commit =>
        ([.completed (!b.refuses commit)], b.settle i commit resource (.alive none))
  | .destroy i, b =>
    (b.find i).map fun
      | none => ([], b.put i .gone)
      | some commit => ([], b.settle i commit none .gone)
  | .consume nonNull, b =>
    match nonNull, b.items with
    | true, resource :: items =>
      some ([.resource resource],
        { b with items := items, consumers := (!items.isEmpty) :: b.consumers })
    | _, _ => some ([.consumed .noneAvailable], b)
  | .finish, b =>
    match b.consumers with
    | more :: consumers =>
      some ([.consumed (if more then .moreAvailable else .done)],
        { b with consumers := consumers })
    | [] => none

end Buffer

/-! ## The pipeline, call by call -/

/-- What the caller sees of a step. -/
def Event.answer : Event ρ → Option (Answer ρ)
  | .pushed _ _ _ _ => none
  | .popped resource _ => some (.resource resource)
  | .completed _ _ _ result => some (.completed result)
  | .consumed result => some (.consumed result)

/-- The steps of a call. -/
def Act.steps (s : Pipeline ρ) : Act ρ → List (Step ρ)
  | .construct => [.construct]
  | .produce commit => [.produce commit]
  | .moveConstruct source => [.moveConstruct source]
  | .moveAssign target source => [.moveAssign target source]
  | .complete i resource =>
    if s.pushes i then [.complete i resource, .signal i] else [.complete i resource]
  | .destroy i => if s.pushes i then [.destroy i, .signal i] else [.destroy i]
  | .consume nonNull =>
    if nonNull && s.available.tryWait.isSome then [.consume nonNull, .pop] else [.consume nonNull]
  | .finish => [.release]

/-- What `operator bool` of a new continuation says. -/
def Act.granted (s : Pipeline ρ) : Act ρ → List (Answer ρ)
  | .produce _ => [.slot (s.objects.getLast?.elim false Object.live)]
  | _ => []

namespace Pipeline

/-- A call on the pipeline. -/
def act (a : Act ρ) (s : Pipeline ρ) : Option (List (Answer ρ) × Pipeline ρ) :=
  (exec step (a.steps s) s).map fun r => (r.1.filterMap Event.answer ++ a.granted r.2, r.2)

/-- No commit is between its push and its signal, and no `Consume` between the semaphore and its
pop. -/
structure Quiet (s : Pipeline ρ) : Prop where
  objects : ∀ a ∈ s.objects, a.committing = false
  calls : ∀ f ∈ s.calls, f.isTaken = false

end Pipeline

/-- What an object of a quiet pipeline stands for. -/
def Object.slot : Object ρ → Slot
  | .alive c => .alive c.continuation
  | _ => .gone

/-- What the consumer's call will return. -/
def Frame.more : Frame ρ → Option Bool
  | .taken => none
  | .popped _ itemsCount => some (decide (itemsCount > 0))

/-- A pipeline with more slots than the platform can count has none. -/
def capacityOf (depth : Nat) : Nat := if depth ≤ longMax then depth else 0

/-- The buffer that a quiet pipeline is. -/
def Pipeline.buffer (s : Pipeline ρ) : Buffer ρ where
  capacity := capacityOf s.depth
  slots := s.objects.map Object.slot
  items := s.queue.map Prod.fst
  consumers := s.calls.filterMap Frame.more

/-! ## What the buffer knows of the pipeline -/

namespace Pipeline

variable {depth : Nat} {s t : Pipeline ρ} {o : List (Event ρ)}

/-- The semaphore of the slots could be made, or not. -/
theorem empty_valid_step {i : Step ρ} (h : step i s = some (o, t)) :
    t.empty.valid = s.empty.valid := by
  have hsignal : s.empty.signal.valid = s.empty.valid := by
    rw [Semaphore.signal]
    split <;> rfl
  cases i with
  | construct =>
    cases h
    rfl
  | produce commit =>
    cases h
    obtain heq | ⟨-, -, heq⟩ := produce_cases commit s <;> rw [heq] <;> rfl
  | moveConstruct source =>
    obtain ⟨c, -, -, rfl⟩ := moveConstruct_cases h
    rfl
  | moveAssign target source =>
    obtain ⟨c, c', -, -, -, rfl⟩ := moveAssign_cases h
    rfl
  | complete i resource =>
    obtain ⟨c, -, ⟨-, -, rfl⟩ | ⟨commit, -, ⟨-, -, rfl⟩ | ⟨-, -, rfl⟩⟩⟩ := complete_cases h
    · rfl
    · exact hsignal
    · rfl
  | destroy i =>
    obtain ⟨c, -, ⟨-, -, rfl⟩ | ⟨commit, -, ⟨-, -, rfl⟩ | ⟨-, -, rfl⟩⟩⟩ := destroy_cases h
    · rfl
    · exact hsignal
    · rfl
  | signal i =>
    obtain ⟨traceId, resource, -, -, rfl⟩ | ⟨traceId, -, -, rfl⟩ := signal_cases h <;> rfl
  | consume nonNull =>
    obtain ⟨-, rfl⟩ | ⟨-, -, -, rfl⟩ := consume_cases h <;> rfl
  | pop =>
    obtain ⟨calls, resource, traceId, queue, -, -, -, rfl⟩ := pop_cases h
    rfl
  | release =>
    obtain ⟨resource, itemsCount, calls, -, -, rfl⟩ := release_cases h
    exact hsignal

/-- The counts fit together, and the slots are counted just if the platform can count them. -/
structure Sound (depth : Nat) (s : Pipeline ρ) : Prop where
  balanced : s.Balanced depth
  valid : s.empty.valid = decide (depth ≤ longMax)

private theorem sound_create (depth : Nat) : (create depth : Pipeline ρ).Sound depth where
  balanced := balanced_create depth
  valid := rfl

theorem Sound.step (h : s.Sound depth) {i : Step ρ} (hstep : Pipeline.step i s = some (o, t)) :
    t.Sound depth where
  balanced := h.balanced.step hstep
  valid := (empty_valid_step hstep).trans h.valid

private theorem Quiet.committing_eq (h : s.Quiet) : s.committing = 0 :=
  List.countP_eq_zero.mpr fun a ha => by simp [h.objects a ha]

private theorem Quiet.taken_eq (h : s.Quiet) : s.taken = 0 :=
  List.countP_eq_zero.mpr fun f hf => by simp [h.calls f hf]

theorem Quiet.callable (h : s.Quiet) : s.callable = true := by
  rw [Pipeline.callable]
  split
  · rename_i calls hcalls
    have htaken := h.calls .taken (by simp [hcalls])
    cases htaken
  · rfl

private theorem live_eq (s : Pipeline ρ) : s.live = s.buffer.slots.countP Slot.isHeld := by
  have hlive : (Slot.isHeld ∘ Object.slot : Object ρ → Bool) = Object.live := by
    funext a
    cases a with
    | alive c =>
      obtain ⟨continuation, traceId⟩ := c
      cases continuation <;> rfl
    | completing => rfl
    | destroying => rfl
    | destroyed => rfl
  rw [buffer, List.countP_map, hlive, live]

private theorem unreleased_eq (s : Pipeline ρ) : s.unreleased = s.buffer.consumers.length := by
  have hmore : (fun f : Frame ρ => f.more.isSome) = fun f => !f.isTaken := by
    funext f
    cases f <;> rfl
  rw [buffer, List.length_filterMap_eq_countP, hmore, unreleased]

/-- A slot is free for the pipeline just if one is free in the buffer. -/
theorem Sound.tryWait_empty (h : s.Sound depth) :
    s.empty.tryWait.isSome = decide (s.buffer.used < s.buffer.capacity) := by
  have hused : s.buffer.used = s.live + s.queue.length + s.unreleased := by
    rw [Buffer.used, live_eq, unreleased_eq]
    simp [buffer]
  have hslots := h.balanced.slots
  have hvalid := h.valid
  have hdepth : s.buffer.capacity = if depth ≤ longMax then depth else 0 := by
    rw [buffer, h.balanced.depth_eq, capacityOf]
  rw [Semaphore.tryWait, hused, hdepth]
  by_cases hle : depth ≤ longMax
  · rw [decide_eq_true hle] at hvalid
    simp only [hvalid, hle, true_and, if_true]
    split
    · simp; omega
    · simp; omega
  · rw [decide_eq_false hle] at hvalid
    simp [hvalid, hle]

/-- The consumer finds something just if the buffer holds something. -/
theorem Sound.tryWait_available (h : s.Sound depth) (hq : s.Quiet) :
    s.available.tryWait.isSome = !s.queue.isEmpty := by
  have hfilled := h.balanced.filled
  rw [hq.taken_eq, hq.committing_eq] at hfilled
  change s.available.count = s.queue.length at hfilled
  rw [Semaphore.tryWait, h.balanced.available_valid, hfilled]
  cases s.queue <;> simp

/-! ## One call -/

/-- The call is answered by the pipeline as by the buffer, and both go on alike. -/
def Agrees (a : Act ρ) (s : Pipeline ρ) : Prop :=
  Matches buffer Quiet (s.act a) (s.buffer.act a)

private theorem agrees_of_some {a : Act ρ} {answers : List (Answer ρ)}
    (hact : s.act a = some (answers, t))
    (hbuffer : s.buffer.act a = some (answers, t.buffer)) (hq : t.Quiet) : Agrees a s :=
  Or.inr ⟨answers, t, hact, hbuffer, hq⟩

private theorem buffer_construct (s : Pipeline ρ) (c : ProducerContinuation) :
    (s.construct c).buffer = s.buffer.add c.continuation := by
  simp [buffer, construct, Buffer.add, Object.slot]

private theorem buffer_setObject (s : Pipeline ρ) (i : Nat) (a : Object ρ) :
    (s.setObject i a).buffer = s.buffer.put i a.slot := by
  simp [buffer, setObject, Buffer.put, List.map_set]

theorem Quiet.construct (h : s.Quiet) (c : ProducerContinuation) : (s.construct c).Quiet where
  objects := by
    rw [Pipeline.construct, List.forall_mem_append]
    exact ⟨h.objects, by simp [Object.committing]⟩
  calls := h.calls

theorem Quiet.setObject (h : s.Quiet) (i : Nat) {a : Object ρ} (ha : a.committing = false) :
    (s.setObject i a).Quiet where
  objects := fun b hb => (List.mem_or_eq_of_mem_set hb).elim (h.objects b) fun hba => hba ▸ ha
  calls := h.calls

/-- At every place of a quiet pipeline there is a continuation, or none for the buffer either. -/
theorem Quiet.lookup (h : s.Quiet) (i : Nat) :
    (∃ c, s.objects[i]? = some (.alive c) ∧ s.buffer.find i = some c.continuation) ∨
      (s.objects[i]? = none ∨ s.objects[i]? = some .destroyed) ∧ s.buffer.find i = none := by
  have hslot : s.buffer.slots[i]? = s.objects[i]?.map Object.slot := by simp [buffer]
  cases ha : s.objects[i]? with
  | none => exact Or.inr ⟨Or.inl rfl, by simp [Buffer.find, hslot, ha]⟩
  | some a =>
    have hcommitting := h.objects a (List.mem_of_getElem? ha)
    cases a with
    | alive c => exact Or.inl ⟨c, rfl, by simp [Buffer.find, hslot, ha, Object.slot]⟩
    | completing => cases hcommitting
    | destroying => cases hcommitting
    | destroyed => exact Or.inr ⟨Or.inr rfl, by simp [Buffer.find, hslot, ha, Object.slot]⟩

private theorem agrees_construct (hq : s.Quiet) : Agrees .construct s := by
  have hact : s.act .construct = some ([], s.construct emptyContinuation) := rfl
  refine agrees_of_some hact ?_ (hq.construct _)
  rw [buffer_construct]
  rfl

private theorem agrees_produce (h : s.Sound depth) (hq : s.Quiet) (commit : Commit) :
    Agrees (.produce commit) s := by
  have hfree := h.tryWait_empty
  have hact : s.act (.produce commit) =
      some ([.slot ((s.produce commit).objects.getLast?.elim false Object.live)],
        s.produce commit) := rfl
  cases hw : s.empty.tryWait with
  | none =>
    have hproduce : s.produce commit = s.construct emptyContinuation := by rw [produce, hw]
    have hfull : ¬ s.buffer.used < s.buffer.capacity := by simpa [hw] using hfree
    rw [hproduce] at hact
    refine agrees_of_some hact ?_ (hq.construct _)
    rw [Buffer.act, if_neg hfull, buffer_construct]
    simp [construct, Object.live, emptyContinuation]
  | some empty =>
    have hproduce : s.produce commit =
        { s with empty := empty, lastTraceId := s.lastTraceId + 1 }.construct
          { continuation := some commit, traceId := s.lastTraceId + 1 } := by rw [produce, hw]
    have hroom : s.buffer.used < s.buffer.capacity := by simpa [hw] using hfree
    rw [hproduce] at hact
    have hq' : { s with empty := empty, lastTraceId := s.lastTraceId + 1 }.Quiet :=
      ⟨hq.objects, hq.calls⟩
    refine agrees_of_some hact ?_ (hq'.construct _)
    rw [Buffer.act, if_pos hroom, buffer_construct]
    simp [construct, Object.live, buffer]

private theorem agrees_moveConstruct (hq : s.Quiet) (source : Nat) :
    Agrees (.moveConstruct source) s := by
  obtain ⟨c, ho, hfind⟩ | ⟨ho, hfind⟩ := hq.lookup source
  · have hact : s.act (.moveConstruct source) =
        some ([], (s.setObject source (.alive emptyContinuation)).construct c) := by
      simp [act, Act.steps, exec, step, moveConstruct, ho, Act.granted]
    refine agrees_of_some hact ?_ ((hq.setObject source rfl).construct c)
    rw [Buffer.act, hfind, buffer_construct, buffer_setObject]
    rfl
  · refine Or.inl ⟨?_, by simp [Buffer.act, hfind]⟩
    rcases ho with ho | ho <;> simp [act, Act.steps, exec, step, moveConstruct, ho]

private theorem agrees_moveAssign (hq : s.Quiet) (target source : Nat) :
    Agrees (.moveAssign target source) s := by
  obtain ⟨c, ho, hfind⟩ | ⟨ho, hfind⟩ := hq.lookup target
  · obtain ⟨c', ho', hfind'⟩ | ⟨ho', hfind'⟩ := hq.lookup source
    · have hact : s.act (.moveAssign target source) =
          some ([], (s.setObject target (.alive c')).setObject source (.alive c)) := by
        simp [act, Act.steps, exec, step, moveAssign, ho, ho', Act.granted]
      refine agrees_of_some hact ?_ ((hq.setObject target rfl).setObject source rfl)
      simp [Buffer.act, hfind, hfind', buffer_setObject, Object.slot]
    · refine Or.inl ⟨?_, by simp [Buffer.act, hfind']⟩
      rcases ho' with ho' | ho' <;> simp [act, Act.steps, exec, step, moveAssign, ho, ho']
  · refine Or.inl ⟨?_, by simp [Buffer.act, hfind]⟩
    rcases ho with ho | ho <;> simp [act, Act.steps, exec, step, moveAssign, ho]

/-- What a commit has left behind when it returns. -/
def settled (s : Pipeline ρ) (i : Nat) (commit : Commit) (resource : Option ρ) (traceId : Nat)
    (after : Object ρ) : Pipeline ρ :=
  if s.bails commit then { s with empty := s.empty.signal }.setObject i after
  else ({ s with available := s.available.signal }.push resource traceId).setObject i after

private theorem bails_eq (s : Pipeline ρ) (commit : Commit) :
    s.bails commit = s.buffer.refuses commit := by
  cases commit with
  | always => rfl
  | ifEmpty => simp [bails, Buffer.refuses, buffer]

private theorem buffer_settled (s : Pipeline ρ) (i : Nat) (commit : Commit) (resource : Option ρ)
    (traceId : Nat) (after : Object ρ) :
    (s.settled i commit resource traceId after).buffer =
      s.buffer.settle i commit resource after.slot := by
  rw [settled, Buffer.settle, bails_eq]
  split
  · exact buffer_setObject ..
  · rw [buffer_setObject]
    simp [buffer, push]

theorem Quiet.settled (h : s.Quiet) {i : Nat} {commit : Commit} {resource : Option ρ}
    {traceId : Nat} {after : Object ρ} (ha : after.committing = false) :
    (s.settled i commit resource traceId after).Quiet := by
  rw [Pipeline.settled]
  split
  · exact Quiet.setObject (s := { s with empty := s.empty.signal }) ⟨h.objects, h.calls⟩ i ha
  · have hpush : ({ s with available := s.available.signal }.push resource traceId).Quiet :=
      ⟨h.objects, h.calls⟩
    exact hpush.setObject i ha

private theorem agrees_complete (hq : s.Quiet) (i : Nat) (resource : Option ρ) :
    Agrees (.complete i resource) s := by
  obtain ⟨⟨_ | commit, traceId⟩, ho, hfind⟩ | ⟨ho, hfind⟩ := hq.lookup i
  · have hact : s.act (.complete i resource) = some ([.completed false], s) := by
      simp [act, Act.steps, pushes, exec, step, complete, ho, Act.granted, Event.answer]
    refine agrees_of_some hact ?_ hq
    simp [Buffer.act, hfind]
  · have hset : ∀ a : Object ρ, (s.objects.set i a)[i]? = some a := fun a =>
      List.getElem?_set_self (List.getElem?_eq_some_iff.mp ho).1
    have hact : s.act (.complete i resource) = some ([.completed (!s.bails commit)],
        s.settled i commit resource traceId (.alive ⟨none, traceId⟩)) := by
      cases hb : s.bails commit with
      | true =>
        simp [act, Act.steps, pushes, exec, step, complete, ho, hb, Act.granted, Event.answer,
          settled]
      | false =>
        simp [act, Act.steps, pushes, exec, step, complete, signal, ho, hb, hset, Act.granted,
          setObject, push, settled]
        rfl
    refine agrees_of_some hact ?_ (hq.settled rfl)
    simp [Buffer.act, hfind, bails_eq, buffer_settled, Object.slot]
  · refine Or.inl ⟨?_, by simp [Buffer.act, hfind]⟩
    rcases ho with ho | ho <;> simp [act, Act.steps, pushes, exec, step, complete, ho]

private theorem agrees_destroy (hq : s.Quiet) (i : Nat) : Agrees (.destroy i) s := by
  obtain ⟨⟨_ | commit, traceId⟩, ho, hfind⟩ | ⟨ho, hfind⟩ := hq.lookup i
  · have hact : s.act (.destroy i) = some ([], s.setObject i .destroyed) := by
      simp [act, Act.steps, pushes, exec, step, destroy, ho, Act.granted]
    refine agrees_of_some hact ?_ (hq.setObject i rfl)
    simp [Buffer.act, hfind, buffer_setObject, Object.slot]
  · have hset : ∀ a : Object ρ, (s.objects.set i a)[i]? = some a := fun a =>
      List.getElem?_set_self (List.getElem?_eq_some_iff.mp ho).1
    have hact : s.act (.destroy i) =
        some ([], s.settled i commit none traceId .destroyed) := by
      cases hb : s.bails commit with
      | true => simp [act, Act.steps, pushes, exec, step, destroy, ho, hb, Act.granted, settled]
      | false =>
        simp [act, Act.steps, pushes, exec, step, destroy, signal, ho, hb, hset, Act.granted,
          Event.answer, setObject, push, settled]
    refine agrees_of_some hact ?_ (hq.settled rfl)
    simp [Buffer.act, hfind, buffer_settled, Object.slot]
  · refine Or.inl ⟨?_, by simp [Buffer.act, hfind]⟩
    rcases ho with ho | ho <;> simp [act, Act.steps, pushes, exec, step, destroy, ho]

private theorem agrees_consume (h : s.Sound depth) (hq : s.Quiet) (nonNull : Bool) :
    Agrees (.consume nonNull) s := by
  have hfound := h.tryWait_available hq
  cases nonNull with
  | false =>
    have hact : s.act (.consume false) = some ([.consumed .noneAvailable], s) := by
      simp [act, Act.steps, exec, step, consume, hq.callable, Act.granted, Event.answer]
    exact agrees_of_some hact rfl hq
  | true =>
    cases hqueue : s.queue with
    | nil =>
      have hw : s.available.tryWait = none := by simpa [hqueue] using hfound
      have hact : s.act (.consume true) = some ([.consumed .noneAvailable], s) := by
        simp [act, Act.steps, exec, step, consume, hq.callable, hw, Act.granted, Event.answer]
      refine agrees_of_some hact ?_ hq
      simp [Buffer.act, buffer, hqueue]
    | cons item queue =>
      obtain ⟨available, hw⟩ : ∃ available, s.available.tryWait = some available :=
        Option.isSome_iff_exists.mp (by simpa [hqueue] using hfound)
      have hact : s.act (.consume true) = some ([.resource item.1],
          { s with
            available := available
            queue := queue
            calls := .popped item.1 queue.length :: s.calls }) := by
        simp [act, Act.steps, exec, step, consume, pop, hq.callable, hw, hqueue, Act.granted,
          Event.answer]
      refine agrees_of_some hact ?_ ⟨hq.objects, List.forall_mem_cons.mpr ⟨rfl, hq.calls⟩⟩
      have hmore : queue.isEmpty = !decide (0 < queue.length) := by
        cases queue <;> simp
      simp [Buffer.act, buffer, hqueue, Frame.more, hmore]

private theorem agrees_finish (hq : s.Quiet) : Agrees .finish s := by
  cases hcalls : s.calls with
  | nil =>
    refine Or.inl ⟨?_, ?_⟩
    · simp [act, Act.steps, exec, step, release, hcalls]
    · simp [Buffer.act, buffer, hcalls]
  | cons f calls =>
    obtain ⟨hf, hrest⟩ := List.forall_mem_cons.mp (hcalls ▸ hq.calls)
    cases f with
    | taken => cases hf
    | popped resource itemsCount =>
      have hact : s.act .finish =
          some ([.consumed (if itemsCount > 0 then .moreAvailable else .done)],
            { s with empty := s.empty.signal, calls := calls }) := by
        simp [act, Act.steps, exec, step, release, hcalls, Act.granted, Event.answer]
      refine agrees_of_some hact ?_ ⟨hq.objects, hrest⟩
      simp [Buffer.act, buffer, hcalls, Frame.more]

/-- Every call on a quiet pipeline is answered as by the buffer. -/
theorem agrees (h : s.Sound depth) (hq : s.Quiet) (a : Act ρ) : Agrees a s := by
  cases a with
  | construct => exact agrees_construct hq
  | produce commit => exact agrees_produce h hq commit
  | moveConstruct source => exact agrees_moveConstruct hq source
  | moveAssign target source => exact agrees_moveAssign hq target source
  | complete i resource => exact agrees_complete hq i resource
  | destroy i => exact agrees_destroy hq i
  | consume nonNull => exact agrees_consume h hq nonNull
  | finish => exact agrees_finish hq

private theorem Sound.act (h : s.Sound depth) {a : Act ρ} {answers : List (Answer ρ)}
    (hact : s.act a = some (answers, t)) : t.Sound depth := by
  rw [Pipeline.act, Option.map_eq_some_iff] at hact
  obtain ⟨⟨o, u⟩, hexec, heq⟩ := hact
  cases heq
  exact exec_keeps (fun _ _ _ _ hs hstep => hs.step hstep) h hexec

end Pipeline

/-- After any interleaving that has left the pipeline quiet, it answers every sequence of calls as
a bounded buffer does. -/
theorem pipeline_refines_buffer {depth : Nat} {steps : List (Step ρ)} {tr : List (Event ρ)}
    {s : Pipeline ρ} (hrun : exec Pipeline.step steps (.create depth) = some (tr, s))
    (hq : s.Quiet) (acts : List (Act ρ)) :
    (exec Pipeline.act acts s).map (fun r => (r.1, r.2.buffer)) =
      exec Buffer.act acts s.buffer := by
  have hs : s.Sound depth :=
    exec_keeps (fun _ _ _ _ h hstep => h.step hstep) (Pipeline.sound_create depth) hrun
  refine exec_of_matches (I := fun s : Pipeline ρ => s.Sound depth ∧ s.Quiet)
    (p := fun _ => True) ?_ (fun _ _ => trivial) ⟨hs, hq⟩
  rintro a u - ⟨hu, hqu⟩
  refine (Pipeline.agrees hu hqu a).imp_right ?_
  rintro ⟨o, t, hact, hbuffer, ht⟩
  exact ⟨o, t, hact, hbuffer, hu.act hact, ht⟩

/-- A consumer that tries before the signal, and then runs while a second continuation waits. -/
def nestedSteps : List (Step Nat) :=
  [.produce .always, .produce .ifEmpty, .complete 0 (some 7), .consume true, .signal 0,
    .consume true, .pop]

/-- The consumer fills the second slot, consumes again, and returns twice. -/
def nestedActs : List (Act Nat) :=
  [.complete 1 (some 8), .produce .always, .consume true, .finish, .finish]

theorem pipeline_refines_buffer_nested :
    ∃ tr s, exec Pipeline.step nestedSteps (.create 2) = some (tr, s) ∧ s.Quiet ∧
      (exec Buffer.act nestedActs s.buffer).map Prod.fst =
        some [.completed true, .slot false, .resource (some 8), .consumed .done,
          .consumed .done] ∧
      (exec Pipeline.act nestedActs s).map (fun r => (r.1, r.2.buffer)) =
        exec Buffer.act nestedActs s.buffer := by
  have hq : ∃ tr s, exec Pipeline.step nestedSteps (.create 2) = some (tr, s) ∧ s.Quiet ∧
      (exec Buffer.act nestedActs s.buffer).map Prod.fst =
        some [.completed true, .slot false, .resource (some 8), .consumed .done,
          .consumed .done] :=
    ⟨_, _, rfl, ⟨by decide, by decide⟩, rfl⟩
  obtain ⟨tr, s, hrun, hquiet, hanswers⟩ := hq
  exact ⟨tr, s, hrun, hquiet, hanswers, pipeline_refines_buffer hrun hquiet nestedActs⟩

end CppImprovement.Pipe
