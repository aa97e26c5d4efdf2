import CppImprovement.Core.Effect
import CppImprovement.Core.Transition
import CppImprovement.Core.PriorityQueue
import Mathlib.Logic.Function.Basic
import Mathlib.Data.List.Nodup
import Mathlib.Algebra.Group.Int.Defs
import Mathlib.Algebra.Group.Nat.Defs

/-!
# Message loop task queues

`MessageLoopTaskQueues` keeps one priority queue of delayed tasks per message loop. Every
operation holds `queue_mutex_` for its whole duration, so the operations of all threads are
atomic steps on one state. A `TimePoint` is a number of nanoseconds. A task is a
`std::function`, which may be null.
-/

namespace CppImprovement.Wtf

/-- The number of a task queue, a `size_t`. -/
abbrev TaskQueueId := Nat

variable {τ W : Type}

/-- A task with the time it is due at and the number it was registered under. -/
structure DelayedTask (τ : Type) where
  order : BitVec 64
  task : Option τ
  targetTime : Int
deriving DecidableEq

/-- `DelayedTask::operator>`. -/
def DelayedTask.gt (a b : DelayedTask τ) : Bool :=
  if a.targetTime = b.targetTime then decide (b.order < a.order)
  else decide (b.targetTime < a.targetTime)

/-- What the platform decides: the value of `ULONG_MAX`, which no `size_t` exceeds and which
is `TaskQueueId::unmerged`, and the implementation of `std::priority_queue`. -/
structure Platform (τ : Type) where
  unmerged : Nat
  unmerged_lt : unmerged < 2 ^ 64
  delayedTaskQueue : PriorityQueue (@DelayedTask.gt τ)

/-- One queue: the loop to wake when its earliest task changes, and the pending tasks. -/
structure TaskQueueEntry (τ W : Type) where
  wakeable : Option W
  delayedTaskQueue : List (DelayedTask τ)
  ownerOf : TaskQueueId

/-- The state behind `queue_mutex_`; `wakeUps` records the calls of `Wakeable::WakeUp`, the
latest last. -/
structure TaskQueues (τ W : Type) where
  queueEntries : TaskQueueId → Option (TaskQueueEntry τ W)
  taskQueueIdCounter : Nat
  order : BitVec 32
  wakeUps : List (W × Int)

/-- How an operation can fail: `std::map::at` on an unknown queue throws, and
`std::priority_queue::top` must not be called on an empty queue. -/
inductive Fault
  | outOfRange
  | emptyTop
deriving DecidableEq

/-- An operation under `queue_mutex_`. -/
abbrev QueuesM (τ W : Type) := EStateM Fault (TaskQueues τ W)

/-- The state of a new process. -/
def TaskQueues.initial : TaskQueues τ W where
  queueEntries := fun _ => none
  taskQueueIdCounter := 0
  order := 0
  wakeUps := []

/-- The tasks waiting on a queue. -/
def TaskQueues.pending (s : TaskQueues τ W) (q : TaskQueueId) : List (DelayedTask τ) :=
  match s.queueEntries q with
  | some e => e.delayedTaskQueue
  | none => []

/-- The state with one entry of the map replaced. -/
def TaskQueues.setEntry (s : TaskQueues τ W) (q : TaskQueueId) (e : TaskQueueEntry τ W) :
    TaskQueues τ W :=
  { s with queueEntries := Function.update s.queueEntries q (some e) }

@[simp] theorem queueEntries_setEntry_self (s : TaskQueues τ W) (q : TaskQueueId)
    (e : TaskQueueEntry τ W) : (s.setEntry q e).queueEntries q = some e :=
  Function.update_self ..

theorem queueEntries_setEntry_of_ne (s : TaskQueues τ W) {q p : TaskQueueId}
    (e : TaskQueueEntry τ W) (h : p ≠ q) :
    (s.setEntry q e).queueEntries p = s.queueEntries p :=
  Function.update_of_ne h ..

/-- `queue_entries_.at`. -/
def entryAt (q : TaskQueueId) : QueuesM τ W (TaskQueueEntry τ W) := do
  match (← get).queueEntries q with
  | some e => return e
  | none => throw .outOfRange

/-- `MessageLoopTaskQueues::CreateTaskQueue`. -/
def createTaskQueue : QueuesM τ W TaskQueueId := do
  let loopId := (← get).taskQueueIdCounter
  modify fun s => { s with taskQueueIdCounter := (loopId + 1) % 2 ^ 64 }
  modify fun s => s.setEntry loopId
    { wakeable := none, delayedTaskQueue := [], ownerOf := loopId }
  return loopId

/-- `MessageLoopTaskQueues::WakeUpUnlocked`. -/
def wakeUpUnlocked (q : TaskQueueId) (time : Int) : QueuesM τ W PUnit := do
  match (← entryAt q).wakeable with
  | some w => modify fun s => { s with wakeUps := s.wakeUps ++ [(w, time)] }
  | none => return

section operations

variable (P : Platform τ)

/-- `MessageLoopTaskQueues::HasPendingTasksUnlocked`. -/
def hasPendingTasksUnlocked (q : TaskQueueId) : QueuesM τ W Bool := do
  let entry ← entryAt q
  if entry.ownerOf = P.unmerged then
    return false
  return !entry.delayedTaskQueue.isEmpty

/-- `MessageLoopTaskQueues::PeekNextTaskUnlocked`. -/
def peekNextTaskUnlocked (q : TaskQueueId) : QueuesM τ W (DelayedTask τ) := do
  let entry ← entryAt q
  match P.delayedTaskQueue.top entry.delayedTaskQueue with
  | some task => return task
  | none => throw .emptyTop

/-- `MessageLoopTaskQueues::GetNextWakeTimeUnlocked`. -/
def getNextWakeTimeUnlocked (q : TaskQueueId) : QueuesM τ W Int := do
  return (← peekNextTaskUnlocked P q).targetTime

/-- The largest `TimePoint`. -/
def timePointMax : Int := 2 ^ 63 - 1

/-- The body of `MessageLoopTaskQueues::GetNextTaskToRun`, with the whole entry it removes. -/
def takeNextTask (q : TaskQueueId) (fromTime : Int) :
    QueuesM τ W (Option (DelayedTask τ)) := do
  if !(← hasPendingTasksUnlocked P q) then
    return none
  let topTask ← peekNextTaskUnlocked P q
  if !(← hasPendingTasksUnlocked P q) then
    wakeUpUnlocked q timePointMax
  else
    wakeUpUnlocked q (← getNextWakeTimeUnlocked P q)
  if fromTime < topTask.targetTime then
    return none
  let entry ← entryAt q
  modify fun s => s.setEntry q
    { entry with delayedTaskQueue := P.delayedTaskQueue.pop entry.delayedTaskQueue }
  return some topTask

/-- `MessageLoopTaskQueues::GetNextTaskToRun`. -/
def getNextTaskToRun (q : TaskQueueId) (fromTime : Int) : QueuesM τ W (Option τ) := do
  return (← takeNextTask P q fromTime).bind DelayedTask.task

/-- The `int` counter as a `size_t`: the sign is extended. -/
def sizeOfOrder (order : BitVec 32) : BitVec 64 := order.signExtend 64

/-- `MessageLoopTaskQueues::RegisterTask`. -/
def registerTask (q : TaskQueueId) (task : Option τ) (targetTime : Int) :
    QueuesM τ W PUnit := do
  let order := sizeOfOrder (← get).order
  modify fun s => { s with order := s.order + 1 }
  let entry ← entryAt q
  modify fun s => s.setEntry q
    { entry with delayedTaskQueue := entry.delayedTaskQueue ++ [⟨order, task, targetTime⟩] }
  if ← hasPendingTasksUnlocked P q then
    wakeUpUnlocked q (← getNextWakeTimeUnlocked P q)

/-- `MessageLoopTaskQueues::DisposeTasks`. -/
def disposeTasks (q : TaskQueueId) : QueuesM τ W PUnit := do
  let entry ← entryAt q
  modify fun s => s.setEntry q { entry with delayedTaskQueue := [] }

end operations

/-! ## What the operations do -/

/-- The state after `WakeUpUnlocked` on a queue with the given entry. -/
def TaskQueues.woken (s : TaskQueues τ W) (e : TaskQueueEntry τ W) (time : Int) :
    TaskQueues τ W :=
  match e.wakeable with
  | some w => { s with wakeUps := s.wakeUps ++ [(w, time)] }
  | none => s

@[simp] theorem queueEntries_woken (s : TaskQueues τ W) (e : TaskQueueEntry τ W)
    (time : Int) : (s.woken e time).queueEntries = s.queueEntries := by
  rw [TaskQueues.woken]
  split <;> rfl

@[simp] theorem order_woken (s : TaskQueues τ W) (e : TaskQueueEntry τ W) (time : Int) :
    (s.woken e time).order = s.order := by
  rw [TaskQueues.woken]
  split <;> rfl

@[simp] theorem taskQueueIdCounter_woken (s : TaskQueues τ W) (e : TaskQueueEntry τ W)
    (time : Int) : (s.woken e time).taskQueueIdCounter = s.taskQueueIdCounter := by
  rw [TaskQueues.woken]
  split <;> rfl

theorem setEntry_woken (s : TaskQueues τ W) (q : TaskQueueId) (e e' : TaskQueueEntry τ W)
    (time : Int) : (s.woken e time).setEntry q e' = (s.setEntry q e').woken e time := by
  rw [TaskQueues.woken, TaskQueues.woken]
  split <;> rfl

theorem pending_of_entry {s : TaskQueues τ W} {q : TaskQueueId} {e : TaskQueueEntry τ W}
    (h : s.queueEntries q = some e) : s.pending q = e.delayedTaskQueue := by
  rw [TaskQueues.pending, h]

theorem pending_setEntry (s : TaskQueues τ W) (q p : TaskQueueId) (e : TaskQueueEntry τ W) :
    (s.setEntry q e).pending p = if p = q then e.delayedTaskQueue else s.pending p := by
  rw [TaskQueues.pending]
  by_cases hp : p = q
  · rw [hp, queueEntries_setEntry_self, if_pos rfl]
  · rw [queueEntries_setEntry_of_ne _ _ hp, if_neg hp, TaskQueues.pending]

theorem pending_woken (s : TaskQueues τ W) (e : TaskQueueEntry τ W) (time : Int)
    (p : TaskQueueId) : (s.woken e time).pending p = s.pending p := by
  rw [TaskQueues.pending, queueEntries_woken, TaskQueues.pending]

section results

variable {P : Platform τ} {s : TaskQueues τ W} {q : TaskQueueId} {e : TaskQueueEntry τ W}
  {t : Int} {d : DelayedTask τ} {rest : List (DelayedTask τ)}

theorem entryAt_known (h : s.queueEntries q = some e) : entryAt q s = .ok e s := by
  apply eq_ok_of_wp
  simp [entryAt, h]

theorem entryAt_unknown (h : s.queueEntries q = none) :
    entryAt q s = .error .outOfRange s := by
  apply eq_error_of_wp
  simp [entryAt, h]

private theorem wakeUpUnlocked_known (h : s.queueEntries q = some e) :
    wakeUpUnlocked q t s = .ok ⟨⟩ (s.woken e t) := by
  apply eq_ok_of_wp
  rw [wakeUpUnlocked, wp_bind, wp_of_eq_ok (entryAt_known h), TaskQueues.woken]
  cases e.wakeable with
  | none => exact ⟨rfl, rfl⟩
  | some w => exact ⟨rfl, rfl⟩

private theorem hasPendingTasksUnlocked_known (h : s.queueEntries q = some e) :
    hasPendingTasksUnlocked P q s =
      .ok (decide (e.ownerOf ≠ P.unmerged) && !e.delayedTaskQueue.isEmpty) s := by
  apply eq_ok_of_wp
  rw [hasPendingTasksUnlocked, wp_bind, wp_of_eq_ok (entryAt_known h)]
  by_cases ho : e.ownerOf = P.unmerged
  · simp [ho]
  · simp [ho]

private theorem peekNextTaskUnlocked_known (h : s.queueEntries q = some e)
    (hx : P.delayedTaskQueue.extract e.delayedTaskQueue = some (d, rest)) :
    peekNextTaskUnlocked P q s = .ok d s := by
  apply eq_ok_of_wp
  rw [peekNextTaskUnlocked, wp_bind, wp_of_eq_ok (entryAt_known h),
    PriorityQueue.top_of_extract hx]
  exact ⟨rfl, rfl⟩

private theorem getNextWakeTimeUnlocked_known (h : s.queueEntries q = some e)
    (hx : P.delayedTaskQueue.extract e.delayedTaskQueue = some (d, rest)) :
    getNextWakeTimeUnlocked P q s = .ok d.targetTime s := by
  apply eq_ok_of_wp
  rw [getNextWakeTimeUnlocked, wp_bind, wp_of_eq_ok (peekNextTaskUnlocked_known h hx)]
  exact ⟨rfl, rfl⟩

private theorem isEmpty_of_extract
    (hx : P.delayedTaskQueue.extract e.delayedTaskQueue = some (d, rest)) :
    e.delayedTaskQueue.isEmpty = false := by
  cases hq : e.delayedTaskQueue with
  | nil =>
    rw [hq, P.delayedTaskQueue.extract_nil] at hx
    cases hx
  | cons x l => rfl

theorem takeNextTask_unknown (h : s.queueEntries q = none) :
    takeNextTask P q t s = .error .outOfRange s := by
  apply eq_error_of_wp
  rw [takeNextTask, wp_bind, hasPendingTasksUnlocked, wp_bind,
    wp_of_eq_error (entryAt_unknown h)]
  exact ⟨rfl, rfl⟩

/-- Nothing is pending: null, and nothing changes. -/
theorem takeNextTask_none (h : s.queueEntries q = some e)
    (hn : e.ownerOf = P.unmerged ∨ e.delayedTaskQueue = []) :
    takeNextTask P q t s = .ok none s := by
  apply eq_ok_of_wp
  rw [takeNextTask, wp_bind, wp_of_eq_ok (hasPendingTasksUnlocked_known h)]
  rcases hn with hn | hn
  · simp [hn]
  · simp [hn]

/-- What happens up to the comparison of the times when something is pending. -/
theorem wp_takeNextTask {Q : Option (DelayedTask τ) → TaskQueues τ W → Prop}
    {E : Fault → TaskQueues τ W → Prop} (h : s.queueEntries q = some e)
    (ho : e.ownerOf ≠ P.unmerged)
    (hx : P.delayedTaskQueue.extract e.delayedTaskQueue = some (d, rest)) :
    wp (takeNextTask P q t) Q E s ↔
      if t < d.targetTime then Q none (s.woken e d.targetTime)
      else Q (some d) ((s.woken e d.targetTime).setEntry q
        { e with delayedTaskQueue := rest }) := by
  have hp : hasPendingTasksUnlocked P q s = .ok true s := by
    rw [hasPendingTasksUnlocked_known h, isEmpty_of_extract hx]
    simp [ho]
  have hk : (s.woken e d.targetTime).queueEntries q = some e := by
    rw [queueEntries_woken, h]
  simp only [takeNextTask, wp_bind, wp_of_eq_ok hp, Bool.not_true, Bool.false_eq_true,
    if_false, wp_of_eq_ok (peekNextTaskUnlocked_known h hx),
    wp_of_eq_ok (getNextWakeTimeUnlocked_known h hx), wp_of_eq_ok (wakeUpUnlocked_known h),
    wp_ite, wp_pure, wp_of_eq_ok (entryAt_known hk), wp_modify,
    PriorityQueue.pop_of_extract hx]

/-- The earliest task is not due yet: null, and the loop is woken for it. -/
theorem takeNextTask_later (h : s.queueEntries q = some e) (ho : e.ownerOf ≠ P.unmerged)
    (hx : P.delayedTaskQueue.extract e.delayedTaskQueue = some (d, rest))
    (ht : t < d.targetTime) :
    takeNextTask P q t s = .ok none (s.woken e d.targetTime) := by
  apply eq_ok_of_wp
  rw [wp_takeNextTask h ho hx, if_pos ht]
  exact ⟨rfl, rfl⟩

/-- The earliest task is due: it is removed, after the loop was woken for it. -/
theorem takeNextTask_due (h : s.queueEntries q = some e) (ho : e.ownerOf ≠ P.unmerged)
    (hx : P.delayedTaskQueue.extract e.delayedTaskQueue = some (d, rest))
    (ht : d.targetTime ≤ t) :
    takeNextTask P q t s = .ok (some d) ((s.woken e d.targetTime).setEntry q
      { e with delayedTaskQueue := rest }) := by
  apply eq_ok_of_wp
  rw [wp_takeNextTask h ho hx, if_neg (Int.not_lt.mpr ht)]
  exact ⟨rfl, rfl⟩

theorem registerTask_unknown {f : Option τ} (h : s.queueEntries q = none) :
    registerTask P q f t s = .error .outOfRange { s with order := s.order + 1 } := by
  have hk : ({ s with order := s.order + 1 } : TaskQueues τ W).queueEntries q = none := h
  apply eq_error_of_wp
  rw [registerTask, wp_bind, wp_get, wp_bind, wp_modify, wp_bind,
    wp_of_eq_error (entryAt_unknown hk)]
  exact ⟨rfl, rfl⟩

/-- The entry with one more task. -/
def TaskQueueEntry.pushed (e : TaskQueueEntry τ W) (d : DelayedTask τ) : TaskQueueEntry τ W :=
  { e with delayedTaskQueue := e.delayedTaskQueue ++ [d] }

/-- The state in which the counter has moved on and the task is in its queue. -/
def TaskQueues.registered (s : TaskQueues τ W) (q : TaskQueueId) (e : TaskQueueEntry τ W)
    (d : DelayedTask τ) : TaskQueues τ W :=
  { s with order := s.order + 1 }.setEntry q (e.pushed d)

/-- A task is put into its queue; then the loop is woken if the queue has a pending task. -/
theorem wp_registerTask {f : Option τ} {Q : PUnit → TaskQueues τ W → Prop}
    {E : Fault → TaskQueues τ W → Prop} (h : s.queueEntries q = some e) :
    wp (registerTask P q f t) Q E s ↔
      wp (hasPendingTasksUnlocked P q)
        (fun pending => wp (if pending then do wakeUpUnlocked q (← getNextWakeTimeUnlocked P q)
          else pure ⟨⟩) Q E) E (s.registered q e ⟨sizeOfOrder s.order, f, t⟩) := by
  have hk : ({ s with order := s.order + 1 } : TaskQueues τ W).queueEntries q = some e := h
  rw [registerTask, wp_bind, wp_get, wp_bind, wp_modify, wp_bind, wp_of_eq_ok (entryAt_known hk),
    wp_bind, wp_modify, wp_bind]
  rfl

/-- A task is registered, and the loop is woken for the earliest task. -/
theorem registerTask_known {f : Option τ} {x : DelayedTask τ} (h : s.queueEntries q = some e)
    (ho : e.ownerOf ≠ P.unmerged)
    (hx : P.delayedTaskQueue.extract
      (e.pushed ⟨sizeOfOrder s.order, f, t⟩).delayedTaskQueue = some (x, rest)) :
    registerTask P q f t s =
      .ok ⟨⟩ ((s.registered q e ⟨sizeOfOrder s.order, f, t⟩).woken e x.targetTime) := by
  have hs : (s.registered q e ⟨sizeOfOrder s.order, f, t⟩).queueEntries q =
      some (e.pushed ⟨sizeOfOrder s.order, f, t⟩) := queueEntries_setEntry_self ..
  have hp : hasPendingTasksUnlocked P q (s.registered q e ⟨sizeOfOrder s.order, f, t⟩) =
      .ok true (s.registered q e ⟨sizeOfOrder s.order, f, t⟩) := by
    rw [hasPendingTasksUnlocked_known hs, isEmpty_of_extract hx]
    simp [ho, TaskQueueEntry.pushed]
  apply eq_ok_of_wp
  rw [wp_registerTask h, wp_of_eq_ok hp, if_pos rfl, wp_bind,
    wp_of_eq_ok (getNextWakeTimeUnlocked_known hs hx), wp_of_eq_ok (wakeUpUnlocked_known hs)]
  exact ⟨rfl, rfl⟩

/-- A task is registered on a queue under the reserved number: nobody is woken. -/
theorem registerTask_unmerged {f : Option τ} (h : s.queueEntries q = some e)
    (ho : e.ownerOf = P.unmerged) :
    registerTask P q f t s = .ok ⟨⟩ (s.registered q e ⟨sizeOfOrder s.order, f, t⟩) := by
  have hs : (s.registered q e ⟨sizeOfOrder s.order, f, t⟩).queueEntries q =
      some (e.pushed ⟨sizeOfOrder s.order, f, t⟩) := queueEntries_setEntry_self ..
  have hp : hasPendingTasksUnlocked P q (s.registered q e ⟨sizeOfOrder s.order, f, t⟩) =
      .ok false (s.registered q e ⟨sizeOfOrder s.order, f, t⟩) := by
    rw [hasPendingTasksUnlocked_known hs]
    simp [ho, TaskQueueEntry.pushed]
  apply eq_ok_of_wp
  rw [wp_registerTask h, wp_of_eq_ok hp, if_neg Bool.false_ne_true]
  exact ⟨rfl, rfl⟩

theorem disposeTasks_known (h : s.queueEntries q = some e) :
    disposeTasks q s = .ok ⟨⟩ (s.setEntry q { e with delayedTaskQueue := [] }) := by
  apply eq_ok_of_wp
  rw [disposeTasks, wp_bind, wp_of_eq_ok (entryAt_known h)]
  exact ⟨rfl, rfl⟩

theorem targetTime_le_of_extract {l : List (DelayedTask τ)} {x : DelayedTask τ}
    (hx : P.delayedTaskQueue.extract l = some (d, rest)) (h : x ∈ l) :
    d.targetTime ≤ x.targetTime := by
  have hgt := P.delayedTaskQueue.maximal hx x h
  rw [DelayedTask.gt] at hgt
  by_cases ht : d.targetTime = x.targetTime
  · exact Int.le_of_eq ht
  · rw [if_neg ht, decide_eq_false_iff_not] at hgt
    exact Int.not_lt.mp hgt

theorem getNextTaskToRun_of_ok {r : Option (DelayedTask τ)} {u : TaskQueues τ W}
    (h : takeNextTask P q t s = .ok r u) :
    getNextTaskToRun P q t s = .ok (r.bind DelayedTask.task) u := by
  rw [getNextTaskToRun, bind_eq_of_ok h]
  rfl

theorem getNextTaskToRun_of_error {f : Fault} {u : TaskQueues τ W}
    (h : takeNextTask P q t s = .error f u) : getNextTaskToRun P q t s = .error f u := by
  apply eq_error_of_wp
  rw [getNextTaskToRun, wp_bind, wp_of_eq_error h]
  exact ⟨rfl, rfl⟩

end results

/-! ## A platform -/

theorem DelayedTask.gt_eq_false_iff {a b : DelayedTask τ} :
    a.gt b = false ↔ a.targetTime < b.targetTime ∨
      a.targetTime = b.targetTime ∧ a.order.toNat ≤ b.order.toNat := by
  rw [DelayedTask.gt]
  by_cases ht : a.targetTime = b.targetTime
  · rw [if_pos ht, decide_eq_false_iff_not, BitVec.lt_def]
    omega
  · rw [if_neg ht, decide_eq_false_iff_not]
    omega

/-- Windows on 64 bit: `ULONG_MAX` has 32 bits, and the queue is scanned. -/
def windows64 (τ : Type) : Platform τ where
  unmerged := 2 ^ 32 - 1
  unmerged_lt := by decide
  delayedTaskQueue := by
    refine scanQueue _ ?_ ?_ ?_
    · intro a
      rw [DelayedTask.gt_eq_false_iff]
      omega
    · intro a b c hab hbc
      rw [DelayedTask.gt_eq_false_iff] at hab hbc ⊢
      omega
    · intro a b hab
      have hne : ¬ a.gt b = false := by simp [hab]
      rw [DelayedTask.gt_eq_false_iff] at hne ⊢
      omega

end CppImprovement.Wtf
