import CppImprovement.Wtf.LoopRun
import CppImprovement.Wtf.TaskOrder

/-!
# One store for all task queues

Every message loop of the process keeps its tasks, its observers and its wakeable in the one
`MessageLoopTaskQueues`, behind one mutex and with one registration counter. To a loop its queue
is nevertheless private: it behaves as a list of tasks in the order in which they will run, with
observers and a wakeable of its own, whatever the other loops do in between.
-/

namespace CppImprovement.Wtf

variable {τ W : Type}

/-! ## The store -/

/-- `MessageLoopTaskQueues` with the task observers of its entries. The observers under a number
without an entry mean nothing. -/
structure QueueStore (τ W : Type) where
  queues : TaskQueues τ W
  taskObservers : TaskQueueId → TaskObservers τ

/-- How an operation ends other than by returning: an exception, or a failed check, which ends the
process. -/
inductive StoreFault
  | threw (f : Fault)
  | checkFailed
deriving DecidableEq

/-- An operation under `queue_mutex_`. -/
abbrev StoreM (τ W : Type) := EStateM StoreFault (QueueStore τ W)

/-- The state of a new process. -/
def QueueStore.initial : QueueStore τ W where
  queues := .initial
  taskObservers _ := .empty

/-- An operation that does not touch the observers. -/
def onQueues {α : Type} (m : QueuesM τ W α) : StoreM τ W α := fun s =>
  match m s.queues with
  | .ok a queues => .ok a { s with queues := queues }
  | .error f queues => .error (.threw f) { s with queues := queues }

/-- `queue_entries_.erase`. -/
def TaskQueues.erase (s : TaskQueues τ W) (q : TaskQueueId) : TaskQueues τ W :=
  { s with queueEntries := Function.update s.queueEntries q none }

namespace QueueStore

/-- `MessageLoopTaskQueues::CreateTaskQueue`. -/
def createTaskQueue : StoreM τ W TaskQueueId := do
  let loopId ← onQueues Wtf.createTaskQueue
  modify fun s => { s with taskObservers := Function.update s.taskObservers loopId .empty }
  return loopId

/-- `MessageLoopTaskQueues::Dispose`. -/
def dispose (P : Platform τ) (q : TaskQueueId) : StoreM τ W PUnit := do
  let entry ← onQueues (entryAt q)
  let subsumed := entry.ownerOf
  modify fun s => { s with queues := s.queues.erase q }
  if subsumed ≠ P.unmerged then
    modify fun s => { s with queues := s.queues.erase subsumed }

/-- `MessageLoopTaskQueues::AddTaskObserver`. -/
def addTaskObserver (q : TaskQueueId) (key : Int) (callback : Option τ) : StoreM τ W PUnit := do
  match callback with
  | none => throw .checkFailed
  | some callback =>
    let _ ← onQueues (entryAt q)
    modify fun s => { s with
      taskObservers :=
        Function.update s.taskObservers q ((s.taskObservers q).insertOrAssign key callback) }

/-- `MessageLoopTaskQueues::GetObserversToNotify`. -/
def getObserversToNotify (q : TaskQueueId) : StoreM τ W (List τ) := do
  let _ ← onQueues (entryAt q)
  return LoopRun.getObserversToNotify ((← get).taskObservers q)

/-- `MessageLoopTaskQueues::SetWakeable`. -/
def setWakeable (q : TaskQueueId) (wakeable : W) : StoreM τ W PUnit := do
  let entry ← onQueues (entryAt q)
  if entry.wakeable.isSome then
    throw .checkFailed
  modify fun s =>
    { s with queues := s.queues.setEntry q { entry with wakeable := some wakeable } }

/-- `MessageLoopTaskQueues::Owns`. -/
def owns (P : Platform τ) (owner subsumed : TaskQueueId) : StoreM τ W Bool := do
  if owner = P.unmerged then
    return false
  if subsumed = P.unmerged then
    return false
  return decide (subsumed = (← onQueues (entryAt owner)).ownerOf)

end QueueStore

/-! ## Requests to a queue -/

/-- A request to one queue. -/
inductive Request (τ W : Type)
  | dispose
  | disposeTasks
  | registerTask (task : Option τ) (targetTime : Int)
  | getNextTaskToRun (fromTime : Int)
  | addTaskObserver (key : Int) (callback : Option τ)
  | getObserversToNotify
  | setWakeable (wakeable : W)
  | owns (subsumed : TaskQueueId)

/-- What a request returns. -/
inductive Answer (τ : Type)
  | done
  | task (f : Option τ)
  | observers (callbacks : List τ)
  | owns (b : Bool)
  | threw (f : Fault)

/-- A call of some thread. -/
inductive StoreCall (τ W : Type)
  | createTaskQueue
  | request (q : TaskQueueId) (r : Request τ W)

/-- What a call did to a queue: the request, unless the queue was created; what it returned; and
the calls of `Wakeable::WakeUp` it made. -/
structure StoreEvent (τ W : Type) where
  queue : TaskQueueId
  request : Option (Request τ W)
  answer : Answer τ
  wakeUps : List (W × Int)

/-- Whether a call registers a task. -/
def StoreCall.isRegister : StoreCall τ W → Bool
  | .request _ (.registerTask _ _) => true
  | _ => false

/-- Whether a call creates a queue. -/
def StoreCall.isCreate : StoreCall τ W → Bool
  | .createTaskQueue => true
  | _ => false

namespace QueueStore

/-- The operation a request asks for. -/
def serve (P : Platform τ) (q : TaskQueueId) : Request τ W → StoreM τ W (Answer τ)
  | .dispose => do
    dispose P q
    return .done
  | .disposeTasks => do
    onQueues (Wtf.disposeTasks q)
    return .done
  | .registerTask task targetTime => do
    onQueues (Wtf.registerTask P q task targetTime)
    return .done
  | .getNextTaskToRun fromTime => do
    return .task (← onQueues (Wtf.getNextTaskToRun P q fromTime))
  | .addTaskObserver key callback => do
    addTaskObserver q key callback
    return .done
  | .getObserversToNotify => do
    return .observers (← getObserversToNotify q)
  | .setWakeable wakeable => do
    setWakeable q wakeable
    return .done
  | .owns subsumed => do
    return .owns (← owns P q subsumed)

/-- The calls of `Wakeable::WakeUp` between two states. -/
def newWakeUps (s s' : QueueStore τ W) : List (W × Int) :=
  s'.queues.wakeUps.drop s.queues.wakeUps.length

/-- Perform a call. An exception reaches its caller, and the run goes on; a failed check ends
it. -/
def perform (P : Platform τ) :
    StoreCall τ W → QueueStore τ W → Option (List (StoreEvent τ W) × QueueStore τ W)
  | .createTaskQueue, s =>
    match createTaskQueue s with
    | .ok q s' => some ([⟨q, none, .done, newWakeUps s s'⟩], s')
    | .error _ _ => none
  | .request q r, s =>
    match serve P q r s with
    | .ok answer s' => some ([⟨q, some r, answer, newWakeUps s s'⟩], s')
    | .error (.threw f) s' => some ([⟨q, some r, .threw f, newWakeUps s s'⟩], s')
    | .error .checkFailed _ => none

end QueueStore

/-! ## A private queue -/

/-- What a loop may think of its queue: the tasks in the order in which they will run, the
observers, and the wakeable. -/
structure PrivateQueue (τ W : Type) where
  tasks : List (Option τ × Int)
  taskObservers : TaskObservers τ
  wakeable : Option W

namespace PrivateQueue

/-- A new queue. -/
def fresh : PrivateQueue τ W where
  tasks := []
  taskObservers := .empty
  wakeable := none

/-- A task goes behind all tasks that are due no later. -/
def insert (task : Option τ) (targetTime : Int) (tasks : List (Option τ × Int)) :
    List (Option τ × Int) :=
  tasks.orderedInsert (fun a b => a.2 < b.2) (task, targetTime)

/-- The wake-up for the first task. -/
def wakeUps (p : PrivateQueue τ W) : List (W × Int) :=
  match p.wakeable, p.tasks with
  | some w, (_, targetTime) :: _ => [(w, targetTime)]
  | _, _ => []

/-- What a request to the queue with the given number returns, and the wake-ups; then the queue
that remains, if it does. A second wakeable ends the process, and so does a null observer. -/
def serve (own : TaskQueueId) (p : PrivateQueue τ W) :
    Request τ W → Option ((Answer τ × List (W × Int)) × Option (PrivateQueue τ W))
  | .dispose => some ((.done, []), none)
  | .disposeTasks => some ((.done, []), some { p with tasks := [] })
  | .registerTask task targetTime =>
    let p' := { p with tasks := insert task targetTime p.tasks }
    some ((.done, p'.wakeUps), some p')
  | .getNextTaskToRun fromTime =>
    match p.tasks with
    | [] => some ((.task none, []), some p)
    | (task, targetTime) :: rest =>
      if fromTime < targetTime then some ((.task none, p.wakeUps), some p)
      else some ((.task task, p.wakeUps), some { p with tasks := rest })
  | .addTaskObserver key callback =>
    callback.map fun callback =>
      ((.done, []), some { p with taskObservers := p.taskObservers.insertOrAssign key callback })
  | .getObserversToNotify => some ((.observers (p.taskObservers.entries.map Prod.snd), []), some p)
  | .setWakeable wakeable =>
    match p.wakeable with
    | none => some ((.done, []), some { p with wakeable := some wakeable })
    | some _ => none
  | .owns subsumed => some ((.owns (decide (subsumed = own)), []), some p)

/-- A request under a number that has no queue. -/
def serveAbsent (unmerged own : TaskQueueId) : Request τ W → Option (Answer τ × List (W × Int))
  | .addTaskObserver _ none => none
  | .owns subsumed =>
    if own = unmerged ∨ subsumed = unmerged then some (.owns false, [])
    else some (.threw .outOfRange, [])
  | _ => some (.threw .outOfRange, [])

/-- One step of the queue with the given number, from before it is created until after it is
disposed of. -/
def step (unmerged own : TaskQueueId) :
    Option (Request τ W) → Option (PrivateQueue τ W) →
      Option (List (Answer τ × List (W × Int)) × Option (PrivateQueue τ W))
  | none, _ => some ([(.done, [])], some fresh)
  | some r, none => (serveAbsent unmerged own r).map fun reply => ([reply], none)
  | some r, some p => (p.serve own r).map fun result => ([result.1], result.2)

end PrivateQueue

/-! ## What a request does to the store -/

/-- The entry of a queue with its observers. -/
abbrev FullEntry (τ W : Type) := TaskQueueEntry τ W × TaskObservers τ

/-- What a request does, seen from the entry it is made to: the answer, the wake-ups, and the entry
that remains. The entry is that of the queue `q`, and `order` is the number for a new task. -/
def serveEntry (P : Platform τ) (order : BitVec 64) (q : TaskQueueId) (e : FullEntry τ W) :
    Request τ W → Option ((Answer τ × List (W × Int)) × Option (FullEntry τ W))
  | .dispose => some ((.done, []), none)
  | .disposeTasks => some ((.done, []), some ({ e.1 with delayedTaskQueue := [] }, e.2))
  | .registerTask task targetTime =>
    let pushed := e.1.pushed ⟨order, task, targetTime⟩
    (P.delayedTaskQueue.top pushed.delayedTaskQueue).map fun x =>
      ((.done, e.1.wakeable.toList.map fun w => (w, x.targetTime)), some (pushed, e.2))
  | .getNextTaskToRun fromTime =>
    match P.delayedTaskQueue.extract e.1.delayedTaskQueue with
    | none => some ((.task none, []), some e)
    | some (d, rest) =>
      let wakeUps := e.1.wakeable.toList.map fun w => (w, d.targetTime)
      if fromTime < d.targetTime then some ((.task none, wakeUps), some e)
      else some ((.task d.task, wakeUps), some ({ e.1 with delayedTaskQueue := rest }, e.2))
  | .addTaskObserver key callback =>
    callback.map fun callback => ((.done, []), some (e.1, e.2.insertOrAssign key callback))
  | .getObserversToNotify => some ((.observers (e.2.entries.map Prod.snd), []), some e)
  | .setWakeable wakeable =>
    match e.1.wakeable with
    | none => some ((.done, []), some ({ e.1 with wakeable := some wakeable }, e.2))
    | some _ => none
  | .owns subsumed => some ((.owns (decide (subsumed = q)), []), some e)

/-- How many numbers a request takes from the registration counter. -/
def Request.numbers : Request τ W → Nat
  | .registerTask _ _ => 1
  | _ => 0

namespace QueueStore

variable {P : Platform τ} {s s' : QueueStore τ W} {q : TaskQueueId}

/-- The entry of a queue with its observers, if the queue exists. -/
def entry (s : QueueStore τ W) (q : TaskQueueId) : Option (FullEntry τ W) :=
  (s.queues.queueEntries q).map fun e => (e, s.taskObservers q)

/-- A request leaves an entry under its number, wakes, and may take a number for a task. It does
nothing else. -/
structure Served (s s' : QueueStore τ W) (q : TaskQueueId) (numbers : Nat)
    (wakeUps : List (W × Int)) (e' : Option (FullEntry τ W)) : Prop where
  self : s'.entry q = e'
  other : ∀ p, p ≠ q → s'.entry p = s.entry p
  counter : s'.queues.taskQueueIdCounter = s.queues.taskQueueIdCounter
  order : s'.queues.order = s.queues.order + BitVec.ofNat 32 numbers
  wakeUps : s'.queues.wakeUps = s.queues.wakeUps ++ wakeUps

private theorem onQueues_of_ok {α : Type} {m : QueuesM τ W α} {a : α} {u : TaskQueues τ W}
    (h : m s.queues = .ok a u) : onQueues m s = .ok a { s with queues := u } := by
  rw [onQueues, h]

private theorem onQueues_of_error {α : Type} {m : QueuesM τ W α} {f : Fault} {u : TaskQueues τ W}
    (h : m s.queues = .error f u) : onQueues m s = .error (.threw f) { s with queues := u } := by
  rw [onQueues, h]

private theorem entry_of_queueEntries {e : TaskQueueEntry τ W}
    (he : s.queues.queueEntries q = some e) :
    s.entry q = some (e, s.taskObservers q) := by
  rw [entry, he]
  rfl

private theorem Served.newWakeUps {numbers : Nat} {wakeUps : List (W × Int)}
    {e' : Option (FullEntry τ W)}
    (h : Served s s' q numbers wakeUps e') : newWakeUps s s' = wakeUps := by
  rw [QueueStore.newWakeUps, h.wakeUps]
  exact List.drop_left

/-- Nothing happens. -/
theorem served_unchanged : Served s s q 0 [] (s.entry q) where
  self := rfl
  other _ _ := rfl
  counter := rfl
  order := (BitVec.add_zero _).symm
  wakeUps := (List.append_nil _).symm

/-- An entry is replaced. -/
theorem served_queues (e' : Option (TaskQueueEntry τ W)) {u : TaskQueues τ W} {numbers : Nat}
    {wakeUps : List (W × Int)}
    (hentries : u.queueEntries = Function.update s.queues.queueEntries q e')
    (hcounter : u.taskQueueIdCounter = s.queues.taskQueueIdCounter)
    (horder : u.order = s.queues.order + BitVec.ofNat 32 numbers)
    (hwakeUps : u.wakeUps = s.queues.wakeUps ++ wakeUps) :
    Served s { s with queues := u } q numbers wakeUps
      (e'.map fun e => (e, s.taskObservers q)) where
  self := by
    rw [entry, hentries, Function.update_self]
  other p hp := by
    rw [entry, entry, hentries, Function.update_of_ne hp]
  counter := hcounter
  order := horder
  wakeUps := hwakeUps

/-- The observers are replaced. -/
theorem served_taskObservers (observers : TaskObservers τ) :
    Served s { s with taskObservers := Function.update s.taskObservers q observers } q 0 []
      ((s.queues.queueEntries q).map fun e => (e, observers)) where
  self := by
    simp only [entry, Function.update_self]
  other p hp := by
    simp only [entry, Function.update_of_ne hp]
  counter := rfl
  order := (BitVec.add_zero _).symm
  wakeUps := (List.append_nil _).symm

private theorem wakeUps_woken (u : TaskQueues τ W) (e : TaskQueueEntry τ W) (time : Int) :
    (u.woken e time).wakeUps = u.wakeUps ++ e.wakeable.toList.map fun w => (w, time) := by
  rw [TaskQueues.woken]
  cases e.wakeable with
  | none => exact (List.append_nil _).symm
  | some w => rfl

/-! ## A request to a queue that exists -/

/-- A request does to the store what it does to the entry. If a check fails there, the process
ends. -/
def Performs (P : Platform τ) (s : QueueStore τ W) (q : TaskQueueId) (r : Request τ W) :
    Option ((Answer τ × List (W × Int)) × Option (FullEntry τ W)) → Prop
  | none => perform P (.request q r) s = none
  | some ((answer, wakeUps), e') => ∃ s',
      perform P (.request q r) s = some ([⟨q, some r, answer, wakeUps⟩], s') ∧
        Served s s' q r.numbers wakeUps e'

private theorem performs_of_ok {r : Request τ W} {answer : Answer τ} {wakeUps : List (W × Int)}
    {e' : Option (FullEntry τ W)} (hserve : serve P q r s = .ok answer s')
    (hserved : Served s s' q r.numbers wakeUps e') :
    Performs P s q r (some ((answer, wakeUps), e')) := by
  refine ⟨s', ?_, hserved⟩
  simp only [perform, hserve, hserved.newWakeUps]

private theorem performs_of_threw {r : Request τ W} {f : Fault} {e' : Option (FullEntry τ W)}
    (hserve : serve P q r s = .error (.threw f) s') (hserved : Served s s' q r.numbers [] e') :
    Performs P s q r (some ((.threw f, []), e')) := by
  refine ⟨s', ?_, hserved⟩
  simp only [perform, hserve, hserved.newWakeUps]

private theorem performs_of_checkFailed {r : Request τ W}
    (hserve : serve P q r s = .error .checkFailed s') : Performs P s q r none := by
  rw [Performs, perform, hserve]

/-- A request that changes nothing. -/
theorem performs_of_unchanged {r : Request τ W} {answer : Answer τ} (hr : r.numbers = 0)
    (hserve : serve P q r s = .ok answer s) :
    Performs P s q r (some ((answer, []), s.entry q)) := by
  apply performs_of_ok hserve
  rw [hr]
  exact served_unchanged

section known

variable {e : TaskQueueEntry τ W}

private theorem dispose_known (he : s.queues.queueEntries q = some e) (ho : e.ownerOf = q)
    (hq : q ≠ P.unmerged) :
    dispose P q s = .ok ⟨⟩ { s with queues := (s.queues.erase q).erase q } := by
  apply eq_ok_of_wp
  rw [dispose, wp_bind, wp_of_eq_ok (onQueues_of_ok (entryAt_known he)), wp_bind, wp_modify, ho,
    wp_ite, if_pos hq, wp_modify]
  exact ⟨rfl, rfl⟩

/-- A queue that owns itself is erased twice. -/
theorem served_dispose :
    Served s { s with queues := (s.queues.erase q).erase q } q 0 [] none :=
  served_queues none (Function.update_idem ..) rfl (BitVec.add_zero _).symm
    (List.append_nil _).symm

private theorem performs_dispose (he : s.queues.queueEntries q = some e) (ho : e.ownerOf = q)
    (hq : q ≠ P.unmerged) : Performs P s q .dispose (some ((.done, []), none)) := by
  exact performs_of_ok (bind_eq_of_ok (dispose_known he ho hq)) served_dispose

private theorem performs_disposeTasks (he : s.queues.queueEntries q = some e) :
    Performs P s q .disposeTasks
      (some ((.done, []), some ({ e with delayedTaskQueue := [] }, s.taskObservers q))) := by
  apply performs_of_ok (bind_eq_of_ok (onQueues_of_ok (disposeTasks_known he)))
  exact served_queues (some _) rfl rfl (BitVec.add_zero _).symm (List.append_nil _).symm

private theorem performs_registerTask {task : Option τ} {targetTime : Int} {x : DelayedTask τ}
    {rest : List (DelayedTask τ)} (he : s.queues.queueEntries q = some e)
    (ho : e.ownerOf ≠ P.unmerged)
    (hx : P.delayedTaskQueue.extract
      (e.pushed ⟨sizeOfOrder s.queues.order, task, targetTime⟩).delayedTaskQueue = some (x, rest)) :
    Performs P s q (.registerTask task targetTime)
      (some ((.done, e.wakeable.toList.map fun w => (w, x.targetTime)),
        some (e.pushed ⟨sizeOfOrder s.queues.order, task, targetTime⟩, s.taskObservers q))) := by
  apply performs_of_ok (bind_eq_of_ok (onQueues_of_ok (registerTask_known he ho hx)))
  apply served_queues (some _)
  · rw [queueEntries_woken]
    rfl
  · rw [taskQueueIdCounter_woken]
    rfl
  · rw [order_woken]
    rfl
  · rw [wakeUps_woken]
    rfl

private theorem performs_getNextTaskToRun_none {fromTime : Int}
    (he : s.queues.queueEntries q = some e)
    (hn : e.delayedTaskQueue = []) :
    Performs P s q (.getNextTaskToRun fromTime)
      (some ((.task none, []), some (e, s.taskObservers q))) := by
  rw [← entry_of_queueEntries he]
  apply performs_of_unchanged rfl
  exact bind_eq_of_ok (onQueues_of_ok
    (getNextTaskToRun_of_ok (takeNextTask_none he (Or.inr hn))))

private theorem performs_getNextTaskToRun_later {fromTime : Int} {d : DelayedTask τ}
    {rest : List (DelayedTask τ)} (he : s.queues.queueEntries q = some e)
    (ho : e.ownerOf ≠ P.unmerged)
    (hx : P.delayedTaskQueue.extract e.delayedTaskQueue = some (d, rest))
    (ht : fromTime < d.targetTime) :
    Performs P s q (.getNextTaskToRun fromTime)
      (some ((.task none, e.wakeable.toList.map fun w => (w, d.targetTime)),
        some (e, s.taskObservers q))) := by
  apply performs_of_ok (bind_eq_of_ok (onQueues_of_ok
    (getNextTaskToRun_of_ok (takeNextTask_later he ho hx ht))))
  apply served_queues (some e)
  · rw [queueEntries_woken, ← he, Function.update_eq_self]
  · exact taskQueueIdCounter_woken ..
  · rw [order_woken]
    exact (BitVec.add_zero _).symm
  · exact wakeUps_woken ..

private theorem performs_getNextTaskToRun_due {fromTime : Int} {d : DelayedTask τ}
    {rest : List (DelayedTask τ)} (he : s.queues.queueEntries q = some e)
    (ho : e.ownerOf ≠ P.unmerged)
    (hx : P.delayedTaskQueue.extract e.delayedTaskQueue = some (d, rest))
    (ht : d.targetTime ≤ fromTime) :
    Performs P s q (.getNextTaskToRun fromTime)
      (some ((.task d.task, e.wakeable.toList.map fun w => (w, d.targetTime)),
        some ({ e with delayedTaskQueue := rest }, s.taskObservers q))) := by
  apply performs_of_ok (bind_eq_of_ok (onQueues_of_ok
    (getNextTaskToRun_of_ok (takeNextTask_due he ho hx ht))))
  apply served_queues (some _)
  · exact congrArg (Function.update · q _) (queueEntries_woken s.queues e d.targetTime)
  · exact taskQueueIdCounter_woken ..
  · refine (order_woken s.queues e d.targetTime).trans ?_
    exact (BitVec.add_zero _).symm
  · exact wakeUps_woken ..

private theorem performs_addTaskObserver {key : Int} {callback : τ}
    (he : s.queues.queueEntries q = some e) :
    Performs P s q (.addTaskObserver key (some callback))
      (some ((.done, []), some (e, (s.taskObservers q).insertOrAssign key callback))) := by
  have hserve := by
    apply eq_ok_of_wp (m := serve P q (.addTaskObserver key (some callback))) (a := .done)
    rw [serve, wp_bind, addTaskObserver, wp_bind, wp_of_eq_ok (onQueues_of_ok (entryAt_known he)),
      wp_modify, wp_pure]
    exact ⟨rfl, rfl⟩
  have hserved := served_taskObservers (s := s) (q := q)
    ((s.taskObservers q).insertOrAssign key callback)
  rw [he] at hserved
  exact performs_of_ok hserve hserved

private theorem performs_addTaskObserver_null {key : Int} :
    Performs P s q (.addTaskObserver key none) none := by
  exact performs_of_checkFailed (bind_eq_of_error rfl)

private theorem performs_getObserversToNotify (he : s.queues.queueEntries q = some e) :
    Performs P s q .getObserversToNotify
      (some ((.observers ((s.taskObservers q).entries.map Prod.snd), []),
        some (e, s.taskObservers q))) := by
  rw [← entry_of_queueEntries he]
  apply performs_of_unchanged rfl
  apply eq_ok_of_wp
  rw [serve, wp_bind, getObserversToNotify, wp_bind,
    wp_of_eq_ok (onQueues_of_ok (entryAt_known he)), wp_bind, wp_get, wp_pure, wp_pure]
  exact ⟨rfl, rfl⟩

private theorem setWakeable_known {wakeable : W} (he : s.queues.queueEntries q = some e)
    (hw : e.wakeable = none) :
    setWakeable q wakeable s =
      .ok ⟨⟩ { s with queues := s.queues.setEntry q { e with wakeable := some wakeable } } := by
  apply eq_ok_of_wp
  rw [setWakeable, wp_bind, wp_of_eq_ok (onQueues_of_ok (entryAt_known he)), hw,
    Option.isSome_none, wp_ite, if_neg Bool.false_ne_true, wp_modify]
  exact ⟨rfl, rfl⟩

private theorem served_setWakeable (wakeable : W) :
    Served s { s with queues := s.queues.setEntry q { e with wakeable := some wakeable } } q 0 []
      (some ({ e with wakeable := some wakeable }, s.taskObservers q)) :=
  served_queues (some _) rfl rfl (BitVec.add_zero _).symm (List.append_nil _).symm

private theorem performs_setWakeable {wakeable : W} (he : s.queues.queueEntries q = some e)
    (hw : e.wakeable = none) :
    Performs P s q (.setWakeable wakeable)
      (some ((.done, []), some ({ e with wakeable := some wakeable }, s.taskObservers q))) := by
  exact performs_of_ok (bind_eq_of_ok (setWakeable_known he hw)) (served_setWakeable wakeable)

private theorem performs_setWakeable_again {wakeable w : W} (he : s.queues.queueEntries q = some e)
    (hw : e.wakeable = some w) : Performs P s q (.setWakeable wakeable) none := by
  have hserve := by
    apply eq_error_of_wp (m := serve P q (.setWakeable wakeable)) (e := .checkFailed)
    rw [serve, wp_bind, setWakeable, wp_bind, wp_of_eq_ok (onQueues_of_ok (entryAt_known he)), hw,
      Option.isSome_some, wp_ite, if_pos rfl, wp_bind, wp_throw]
    exact ⟨rfl, rfl⟩
  exact performs_of_checkFailed hserve

private theorem owns_known {subsumed : TaskQueueId} (he : s.queues.queueEntries q = some e)
    (ho : e.ownerOf = q) (hq : q ≠ P.unmerged) :
    owns P q subsumed s = .ok (decide (subsumed = q)) s := by
  apply eq_ok_of_wp
  rw [owns, wp_ite, if_neg hq]
  by_cases hs : subsumed = P.unmerged
  · rw [wp_ite, if_pos hs, wp_pure, decide_eq_false (by rw [hs]; exact hq.symm)]
    exact ⟨rfl, rfl⟩
  · rw [wp_ite, if_neg hs, wp_bind, wp_of_eq_ok (onQueues_of_ok (entryAt_known he)), wp_pure, ho]
    exact ⟨rfl, rfl⟩

private theorem performs_owns {subsumed : TaskQueueId} (he : s.queues.queueEntries q = some e)
    (ho : e.ownerOf = q) (hq : q ≠ P.unmerged) :
    Performs P s q (.owns subsumed)
      (some ((.owns (decide (subsumed = q)), []), some (e, s.taskObservers q))) := by
  rw [← entry_of_queueEntries he]
  exact performs_of_unchanged rfl (bind_eq_of_ok (owns_known he ho hq))

/-- What a request does to a queue that exists, it does to its entry. -/
theorem performs_known (he : s.queues.queueEntries q = some e) (ho : e.ownerOf = q)
    (hq : q ≠ P.unmerged) (r : Request τ W) :
    Performs P s q r
      (serveEntry P (sizeOfOrder s.queues.order) q (e, s.taskObservers q) r) := by
  have hown : e.ownerOf ≠ P.unmerged := by
    rw [ho]
    exact hq
  cases r with
  | dispose => exact performs_dispose he ho hq
  | disposeTasks => exact performs_disposeTasks he
  | registerTask task targetTime =>
    obtain ⟨x, rest, hx⟩ := P.delayedTaskQueue.exists_extract
      (l := (e.pushed ⟨sizeOfOrder s.queues.order, task, targetTime⟩).delayedTaskQueue)
      (List.append_ne_nil_of_right_ne_nil _ (List.cons_ne_nil _ _))
    simp only [serveEntry, PriorityQueue.top_of_extract hx, Option.map_some]
    exact performs_registerTask he hown hx
  | getNextTaskToRun fromTime =>
    rw [serveEntry]
    cases hx : P.delayedTaskQueue.extract e.delayedTaskQueue with
    | none =>
      exact performs_getNextTaskToRun_none he (P.delayedTaskQueue.eq_nil_of_extract hx)
    | some result =>
      obtain ⟨d, rest⟩ := result
      by_cases ht : fromTime < d.targetTime
      · simp only [if_pos ht]
        exact performs_getNextTaskToRun_later he hown hx ht
      · simp only [if_neg ht]
        exact performs_getNextTaskToRun_due he hown hx (Int.not_lt.mp ht)
  | addTaskObserver key callback =>
    cases callback with
    | none => exact performs_addTaskObserver_null
    | some callback => exact performs_addTaskObserver he
  | getObserversToNotify => exact performs_getObserversToNotify he
  | setWakeable wakeable =>
    rw [serveEntry]
    cases hw : e.wakeable with
    | none => exact performs_setWakeable he hw
    | some w => exact performs_setWakeable_again he hw
  | owns subsumed => exact performs_owns he ho hq

end known

/-! ## A request under a number without a queue -/

section absent

variable (he : s.queues.queueEntries q = none)

include he

private theorem entry_of_absent : s.entry q = none := by
  rw [entry, he]
  rfl

private theorem performs_outOfRange {r : Request τ W} (hr : r.numbers = 0)
    (hserve : serve P q r s = .error (.threw .outOfRange) s) :
    Performs P s q r (some ((.threw .outOfRange, []), none)) := by
  apply performs_of_threw hserve
  rw [hr, ← entry_of_absent he]
  exact served_unchanged

/-- Only a registration leaves a trace: it has taken its number before it throws. -/
theorem performs_registerTask_absent (task : Option τ) (targetTime : Int) :
    Performs P s q (.registerTask task targetTime) (some ((.threw .outOfRange, []), none)) := by
  apply performs_of_threw (bind_eq_of_error (onQueues_of_error (registerTask_unknown he)))
  apply served_queues none
  · rw [← he, Function.update_eq_self]
  · rfl
  · rfl
  · exact (List.append_nil _).symm

/-- What a request does under a number that has no queue. -/
theorem performs_absent (r : Request τ W) :
    Performs P s q r
      ((PrivateQueue.serveAbsent P.unmerged q r).map fun reply => (reply, none)) := by
  have hentry := onQueues_of_error (s := s) (entryAt_unknown he)
  cases r with
  | dispose =>
    exact performs_outOfRange he rfl (bind_eq_of_error (bind_eq_of_error hentry))
  | disposeTasks =>
    have hdispose : disposeTasks q s.queues = .error .outOfRange s.queues := by
      rw [disposeTasks, bind_eq_of_error (entryAt_unknown he)]
    exact performs_outOfRange he rfl (bind_eq_of_error (onQueues_of_error hdispose))
  | registerTask task targetTime => exact performs_registerTask_absent he task targetTime
  | getNextTaskToRun fromTime =>
    exact performs_outOfRange he rfl (bind_eq_of_error (onQueues_of_error
      (getNextTaskToRun_of_error (takeNextTask_unknown he))))
  | addTaskObserver key callback =>
    cases callback with
    | none => exact performs_addTaskObserver_null
    | some callback =>
      exact performs_outOfRange he rfl (bind_eq_of_error (bind_eq_of_error hentry))
  | getObserversToNotify =>
    exact performs_outOfRange he rfl (bind_eq_of_error (bind_eq_of_error hentry))
  | setWakeable wakeable =>
    exact performs_outOfRange he rfl (bind_eq_of_error (bind_eq_of_error hentry))
  | owns subsumed =>
    rw [PrivateQueue.serveAbsent]
    by_cases hown : q = P.unmerged ∨ subsumed = P.unmerged
    · rw [if_pos hown, Option.map_some, ← entry_of_absent he]
      apply performs_of_unchanged rfl
      apply eq_ok_of_wp
      rw [serve, wp_bind, owns, wp_ite]
      by_cases hq : q = P.unmerged
      · rw [if_pos hq]
        exact ⟨rfl, rfl⟩
      · rw [if_neg hq, wp_ite, if_pos (hown.resolve_left hq)]
        exact ⟨rfl, rfl⟩
    · rw [if_neg hown]
      rw [not_or] at hown
      apply performs_outOfRange he rfl
      apply eq_error_of_wp
      rw [serve, wp_bind, owns, wp_ite, if_neg hown.1, wp_ite, if_neg hown.2, wp_bind,
        wp_of_eq_error hentry]
      exact ⟨rfl, rfl⟩

end absent

/-! ## A new queue -/

/-- The store with one more queue. -/
def created (s : QueueStore τ W) : QueueStore τ W where
  queues := { s.queues with
    taskQueueIdCounter := (s.queues.taskQueueIdCounter + 1) % 2 ^ 64 }.setEntry
      s.queues.taskQueueIdCounter
      { wakeable := none, delayedTaskQueue := [], ownerOf := s.queues.taskQueueIdCounter }
  taskObservers := Function.update s.taskObservers s.queues.taskQueueIdCounter .empty

private theorem createTaskQueue_eq_created (s : QueueStore τ W) :
    createTaskQueue s = .ok s.queues.taskQueueIdCounter s.created := by
  apply eq_ok_of_wp
  rw [createTaskQueue, wp_bind, wp_of_eq_ok (onQueues_of_ok (createTaskQueue_eq s.queues)),
    wp_bind, wp_modify, wp_pure]
  exact ⟨rfl, rfl⟩

private theorem perform_createTaskQueue (s : QueueStore τ W) :
    perform P .createTaskQueue s =
      some ([⟨s.queues.taskQueueIdCounter, none, .done, []⟩], s.created) := by
  have hnone : newWakeUps s s.created = [] := List.drop_length
  simp only [perform, s.createTaskQueue_eq_created, hnone]

private theorem entry_created_self (s : QueueStore τ W) :
    s.created.entry s.queues.taskQueueIdCounter =
      some ({ wakeable := none, delayedTaskQueue := [], ownerOf := s.queues.taskQueueIdCounter },
        .empty) := by
  simp only [entry, created, queueEntries_setEntry_self, Function.update_self, Option.map_some]

private theorem entry_created_of_ne (s : QueueStore τ W) {p : TaskQueueId}
    (hp : p ≠ s.queues.taskQueueIdCounter) : s.created.entry p = s.entry p := by
  simp only [entry, created, queueEntries_setEntry_of_ne _ _ hp, Function.update_of_ne hp]

end QueueStore

/-! ## The entry behind a private queue -/

variable {P : Platform τ} {n : Nat} {q : TaskQueueId} {e : FullEntry τ W} {p : PrivateQueue τ W}

/-- The tasks of an entry, in the order in which the private queue has them, when fewer than `n`
tasks have been registered so far. -/
structure Mirrors (n : Nat) (q : TaskQueueId) (e : FullEntry τ W) (p : PrivateQueue τ W) :
    Prop where
  owner : e.1.ownerOf = q
  wakeable : p.wakeable = e.1.wakeable
  taskObservers : p.taskObservers = e.2
  tasks : ∃ l, e.1.delayedTaskQueue.Perm l ∧ l.Pairwise (fun a b => b.gt a = true) ∧
    p.tasks = l.map fun d => (d.task, d.targetTime)
  numbers : ∀ d ∈ e.1.delayedTaskQueue, ∃ m < n, d.order = sizeOfOrder (BitVec.ofNat 32 m)

theorem Mirrors.mono {n' : Nat} (h : Mirrors n q e p) (hn : n ≤ n') : Mirrors n' q e p where
  owner := h.owner
  wakeable := h.wakeable
  taskObservers := h.taskObservers
  tasks := h.tasks
  numbers d hd := by
    obtain ⟨m, hm, heq⟩ := h.numbers d hd
    exact ⟨m, Nat.lt_of_lt_of_le hm hn, heq⟩

private theorem mirrors_fresh (n : Nat) (q : TaskQueueId) :
    Mirrors n q
      (({ wakeable := none, delayedTaskQueue := [], ownerOf := q } : TaskQueueEntry τ W), .empty)
      .fresh where
  owner := rfl
  wakeable := rfl
  taskObservers := rfl
  tasks := ⟨[], List.Perm.refl _, List.Pairwise.nil, rfl⟩
  numbers d hd := by cases hd

private theorem DelayedTask.gt_eq_true_iff {a b : DelayedTask τ} :
    a.gt b = true ↔ b.targetTime < a.targetTime ∨
      b.targetTime = a.targetTime ∧ b.order.toNat < a.order.toNat := by
  rw [← Bool.not_eq_false, DelayedTask.gt_eq_false_iff]
  omega

/-- A new task goes where the private queue inserts it. -/
theorem Mirrors.tasks_insert (h : Mirrors n q e p) (hn : n < 2 ^ 32) (task : Option τ)
    (targetTime : Int) :
    ∃ l, (e.1.pushed ⟨sizeOfOrder (BitVec.ofNat 32 n), task, targetTime⟩).delayedTaskQueue.Perm l ∧
      l.Pairwise (fun a b => b.gt a = true) ∧
      PrivateQueue.insert task targetTime p.tasks = l.map fun d => (d.task, d.targetTime) := by
  obtain ⟨l, hperm, hsorted, htasks⟩ := h.tasks
  set d : DelayedTask τ := ⟨sizeOfOrder (BitVec.ofNat 32 n), task, targetTime⟩ with hd
  -- the new task has the greatest number, so among equal times it comes last
  have hnumber : ∀ a ∈ l, a.order.toNat < d.order.toNat := by
    intro a ha
    obtain ⟨m, hm, heq⟩ := h.numbers a (hperm.symm.subset ha)
    rw [heq]
    exact sizeOfOrder_lt hm hn
  refine ⟨l.orderedInsert (fun a b => a.targetTime < b.targetTime) d, ?_, ?_, ?_⟩
  · have hpush : (e.1.delayedTaskQueue ++ [d]).Perm (d :: l) :=
      (List.perm_append_singleton d _).trans (hperm.cons d)
    exact hpush.trans (List.perm_orderedInsert _ d l).symm
  · apply pairwise_orderedInsert _ hsorted
    · intro a _ hlt
      exact DelayedTask.gt_eq_true_iff.mpr (Or.inl hlt)
    · intro a ha hle
      have := hnumber a ha
      apply DelayedTask.gt_eq_true_iff.mpr
      omega
    · intro a b c hab hbc
      rw [DelayedTask.gt_eq_true_iff] at hab hbc ⊢
      omega
  · rw [htasks, PrivateQueue.insert]
    exact (List.map_orderedInsert _ _ (fun x : DelayedTask τ => (x.task, x.targetTime)) l d
      (fun _ _ => Iff.rfl) (fun _ _ => Iff.rfl)).symm

theorem Mirrors.pushed (h : Mirrors n q e p) (hn : n < 2 ^ 32) (task : Option τ)
    (targetTime : Int) :
    Mirrors (n + 1) q (e.1.pushed ⟨sizeOfOrder (BitVec.ofNat 32 n), task, targetTime⟩, e.2)
      { p with tasks := PrivateQueue.insert task targetTime p.tasks } where
  owner := h.owner
  wakeable := h.wakeable
  taskObservers := h.taskObservers
  tasks := h.tasks_insert hn task targetTime
  numbers d hd := by
    rcases List.mem_append.mp hd with hd | hd
    · exact (h.mono (Nat.le_succ n)).numbers d hd
    · rw [List.mem_singleton.mp hd]
      exact ⟨n, Nat.lt_succ_self n, rfl⟩

/-- The wake-up for the task that is given out next is that of the private queue. -/
theorem Mirrors.wakeUps_eq (h : Mirrors n q e p) {x : DelayedTask τ} {rest : List (DelayedTask τ)}
    (hx : P.delayedTaskQueue.extract e.1.delayedTaskQueue = some (x, rest)) :
    p.wakeUps = e.1.wakeable.toList.map fun w => (w, x.targetTime) := by
  obtain ⟨l, hperm, hsorted, htasks⟩ := h.tasks
  obtain ⟨tail, rfl, -⟩ := PriorityQueue.extract_of_sorted hperm hsorted hx
  rw [PrivateQueue.wakeUps, htasks, h.wakeable]
  cases e.1.wakeable with
  | none => rfl
  | some w => rfl

/-- A request to the entry and to the private queue: the same reply, and again a mirrored entry, or
none on either side. -/
theorem Mirrors.serve (h : Mirrors n q e p) (r : Request τ W) (hn : n + r.numbers ≤ 2 ^ 32) :
    Option.Rel (fun a b => a.1 = b.1 ∧ Option.Rel (Mirrors (n + r.numbers) q) a.2 b.2)
      (serveEntry P (sizeOfOrder (BitVec.ofNat 32 n)) q e r) (p.serve q r) := by
  cases r with
  | dispose => exact .some ⟨rfl, .none⟩
  | disposeTasks =>
    refine .some ⟨rfl, .some ?_⟩
    exact { h with
      tasks := ⟨[], List.Perm.refl _, List.Pairwise.nil, rfl⟩
      numbers := fun d hd => by cases hd }
  | registerTask task targetTime =>
    have hpushed := h.pushed hn task targetTime
    obtain ⟨x, rest, hx⟩ := P.delayedTaskQueue.exists_extract
      (l := (e.1.pushed ⟨sizeOfOrder (BitVec.ofNat 32 n), task, targetTime⟩).delayedTaskQueue)
      (List.append_ne_nil_of_right_ne_nil _ (List.cons_ne_nil _ _))
    simp only [serveEntry, PrivateQueue.serve, PriorityQueue.top_of_extract hx, Option.map_some,
      hpushed.wakeUps_eq hx]
    exact .some ⟨rfl, .some hpushed⟩
  | getNextTaskToRun fromTime =>
    obtain ⟨l, hperm, hsorted, htasks⟩ := h.tasks
    cases hx : P.delayedTaskQueue.extract e.1.delayedTaskQueue with
    | none =>
      have hnil := P.delayedTaskQueue.eq_nil_of_extract hx
      have hl : l = [] := by
        rw [hnil] at hperm
        exact hperm.symm.eq_nil
      rw [hl] at htasks
      simp only [serveEntry, PrivateQueue.serve, hx, htasks, List.map_nil]
      exact .some ⟨rfl, .some h⟩
    | some result =>
      obtain ⟨d, rest⟩ := result
      have hwakeUps := h.wakeUps_eq hx
      obtain ⟨tail, rfl, hrest⟩ := PriorityQueue.extract_of_sorted hperm hsorted hx
      simp only [serveEntry, PrivateQueue.serve, hx, htasks, List.map_cons, hwakeUps]
      by_cases ht : fromTime < d.targetTime
      · rw [if_pos ht, if_pos ht]
        exact .some ⟨rfl, .some h⟩
      · rw [if_neg ht, if_neg ht]
        refine .some ⟨rfl, .some ?_⟩
        exact { h with
          tasks := ⟨tail, hrest, (List.pairwise_cons.mp hsorted).2, rfl⟩
          numbers := fun x hx' =>
            h.numbers x ((P.delayedTaskQueue.perm hx).subset (List.mem_cons_of_mem d hx')) }
  | addTaskObserver key callback =>
    cases callback with
    | none => exact .none
    | some callback =>
      refine .some ⟨rfl, .some ?_⟩
      exact { h with taskObservers := congrArg (·.insertOrAssign key callback) h.taskObservers }
  | getObserversToNotify =>
    rw [PrivateQueue.serve, h.taskObservers]
    exact .some ⟨rfl, .some h⟩
  | setWakeable wakeable =>
    rw [PrivateQueue.serve, serveEntry, h.wakeable]
    cases e.1.wakeable with
    | none => exact .some ⟨rfl, .some { h with wakeable := rfl }⟩
    | some w => exact .none
  | owns subsumed => exact .some ⟨rfl, .some h⟩

/-! ## The store and its private queues -/

/-- The requests to a queue in a history. -/
def requestsTo (q : TaskQueueId) (tr : List (StoreEvent τ W)) : List (Option (Request τ W)) :=
  (tr.filter fun event => event.queue = q).map StoreEvent.request

/-- What the requests to a queue returned, and whom they woke. -/
def repliesOf (q : TaskQueueId) (tr : List (StoreEvent τ W)) : List (Answer τ × List (W × Int)) :=
  (tr.filter fun event => event.queue = q).map fun event => (event.answer, event.wakeUps)

private theorem requestsTo_append (q : TaskQueueId) (tr o : List (StoreEvent τ W)) :
    requestsTo q (tr ++ o) = requestsTo q tr ++ requestsTo q o := by
  rw [requestsTo, List.filter_append, List.map_append]
  rfl

private theorem repliesOf_append (q : TaskQueueId) (tr o : List (StoreEvent τ W)) :
    repliesOf q (tr ++ o) = repliesOf q tr ++ repliesOf q o := by
  rw [repliesOf, List.filter_append, List.map_append]
  rfl

/-- The store is its private queues, after `n` registrations and `k` creations of queues. -/
structure Agrees (n k : Nat) (s : QueueStore τ W)
    (queues : TaskQueueId → Option (PrivateQueue τ W)) : Prop where
  order : s.queues.order = BitVec.ofNat 32 n
  counter : s.queues.taskQueueIdCounter = k
  unused : ∀ q, k ≤ q → queues q = none
  mirrors : ∀ q, Option.Rel (Mirrors n q) (s.entry q) (queues q)

private theorem agrees_initial :
    Agrees 0 0 (QueueStore.initial : QueueStore τ W) fun _ => none where
  order := rfl
  counter := rfl
  unused _ _ := rfl
  mirrors _ := .none

/-- A private queue takes the steps an event shows of it, and only those. -/
def Steps (unmerged : TaskQueueId) (o : List (StoreEvent τ W))
    (queues queues' : TaskQueueId → Option (PrivateQueue τ W)) : Prop :=
  ∀ q, exec (PrivateQueue.step unmerged q) (requestsTo q o) (queues q) =
    some (repliesOf q o, queues' q)

private theorem steps_append {unmerged : TaskQueueId} {o o' : List (StoreEvent τ W)}
    {queues queues' queues'' : TaskQueueId → Option (PrivateQueue τ W)}
    (h : Steps unmerged o queues queues') (h' : Steps unmerged o' queues' queues'') :
    Steps unmerged (o ++ o') queues queues'' := by
  intro q
  rw [requestsTo_append, repliesOf_append]
  exact exec_append_eq_some.mpr ⟨_, _, _, h q, h' q, rfl⟩

private theorem steps_single {unmerged : TaskQueueId} {event : StoreEvent τ W}
    {queues : TaskQueueId → Option (PrivateQueue τ W)} (p' : Option (PrivateQueue τ W))
    (h : PrivateQueue.step unmerged event.queue event.request (queues event.queue) =
      some ([(event.answer, event.wakeUps)], p')) :
    Steps unmerged [event] queues (Function.update queues event.queue p') := by
  intro q
  by_cases hq : event.queue = q
  · subst hq
    have hfilter : [event].filter (fun x => x.queue = event.queue) = [event] := by simp
    rw [requestsTo, repliesOf, hfilter, Function.update_self]
    exact exec_cons_of_eq h
  · have hfilter : [event].filter (fun x => x.queue = q) = [] := by simp [hq]
    rw [requestsTo, repliesOf, hfilter, Function.update_of_ne (Ne.symm hq)]
    rfl

section optionRel

variable {α β : Type} {R : α → β → Prop} {x : Option α} {y : Option β}

private theorem optionRel_imp {R' : α → β → Prop} (h : ∀ a b, R a b → R' a b)
    (hxy : Option.Rel R x y) :
    Option.Rel R' x y := by
  cases hxy with
  | none => exact .none
  | some hab => exact .some (h _ _ hab)

private theorem eq_none_of_optionRel (h : Option.Rel R x none) : x = none := by
  cases h
  rfl

private theorem exists_of_optionRel {b : β} (h : Option.Rel R x (some b)) :
    ∃ a, x = some a ∧ R a b := by
  cases h with
  | some hab => exact ⟨_, rfl, hab⟩

end optionRel

section runs

variable {k : Nat} {s s' : QueueStore τ W} {queues : TaskQueueId → Option (PrivateQueue τ W)}
  {o : List (StoreEvent τ W)}

/-- A request replaces one private queue. -/
theorem Agrees.served (h : Agrees n k s queues) {numbers : Nat} {wakeUps : List (W × Int)}
    {e' : Option (FullEntry τ W)} {p' : Option (PrivateQueue τ W)}
    (hserved : s.Served s' q numbers wakeUps e') (hk : k ≤ q → p' = none)
    (hp' : Option.Rel (Mirrors (n + numbers) q) e' p') :
    Agrees (n + numbers) k s' (Function.update queues q p') where
  order := by
    rw [hserved.order, h.order, BitVec.ofNat_add]
  counter := by
    rw [hserved.counter, h.counter]
  unused x hx := by
    by_cases hxq : x = q
    · subst hxq
      rw [Function.update_self]
      exact hk hx
    · rw [Function.update_of_ne hxq]
      exact h.unused x hx
  mirrors x := by
    by_cases hxq : x = q
    · subst hxq
      rw [Function.update_self, hserved.self]
      exact hp'
    · rw [Function.update_of_ne hxq, hserved.other x hxq]
      exact optionRel_imp (fun _ _ hm => hm.mono (Nat.le_add_right n numbers)) (h.mirrors x)

/-- A new queue is a fresh private queue. -/
theorem Agrees.created (h : Agrees n k s queues) (hk : k < 2 ^ 64 - 1) :
    Agrees n (k + 1) s.created (Function.update queues k (some .fresh)) where
  order := h.order
  counter := by
    change (s.queues.taskQueueIdCounter + 1) % 2 ^ 64 = k + 1
    rw [h.counter]
    exact Nat.mod_eq_of_lt (by omega)
  unused x hx := by
    rw [Function.update_of_ne (Nat.ne_of_gt hx)]
    exact h.unused x (Nat.le_of_succ_le hx)
  mirrors x := by
    have hcounter := h.counter
    subst hcounter
    by_cases hx : x = s.queues.taskQueueIdCounter
    · subst hx
      rw [Function.update_self, s.entry_created_self]
      exact .some (mirrors_fresh n _)
    · rw [Function.update_of_ne hx, s.entry_created_of_ne hx]
      exact h.mirrors x

private theorem Agrees.request_absent (h : Agrees n k s queues) (hq : queues q = none)
    {r : Request τ W}
    (hr : QueueStore.perform P (.request q r) s = some (o, s')) :
    ∃ queues', Steps P.unmerged o queues queues' ∧ Agrees (n + r.numbers) k s' queues' := by
  have hentry : s.queues.queueEntries q = none := by
    have hrel := h.mirrors q
    rw [hq] at hrel
    exact Option.map_eq_none_iff.mp (eq_none_of_optionRel hrel)
  have hperforms := QueueStore.performs_absent (P := P) hentry r
  cases hserve : PrivateQueue.serveAbsent P.unmerged q r with
  | none =>
    rw [hserve] at hperforms
    exact absurd (hr.symm.trans hperforms) (Option.some_ne_none _)
  | some reply =>
    rw [hserve] at hperforms
    obtain ⟨t, hperform, hserved⟩ := hperforms
    cases hr.symm.trans hperform
    have hstep : PrivateQueue.step P.unmerged q (some r) (queues q) = some ([reply], none) := by
      rw [hq, PrivateQueue.step, hserve]
      rfl
    exact ⟨_, steps_single _ hstep, h.served hserved (fun _ => rfl) .none⟩

private theorem Agrees.request_known (h : Agrees n k s queues) (hq : queues q = some p)
    {r : Request τ W}
    (hn : n + r.numbers ≤ 2 ^ 32) (hk : k ≤ P.unmerged)
    (hr : QueueStore.perform P (.request q r) s = some (o, s')) :
    ∃ queues', Steps P.unmerged o queues queues' ∧ Agrees (n + r.numbers) k s' queues' := by
  have hrel := h.mirrors q
  rw [hq] at hrel
  obtain ⟨e, hentry, hmirrors⟩ := exists_of_optionRel hrel
  obtain ⟨entry, hknown, rfl⟩ := Option.map_eq_some_iff.mp hentry
  have hlt : q < k := by
    by_contra hge
    rw [h.unused q (Nat.not_lt.mp hge)] at hq
    cases hq
  have hperforms := QueueStore.performs_known (P := P) hknown hmirrors.owner
    (Nat.ne_of_lt (Nat.lt_of_lt_of_le hlt hk)) r
  rw [h.order] at hperforms
  have hsame := hmirrors.serve (P := P) r hn
  cases hserve : p.serve q r with
  | none =>
    rw [hserve] at hsame
    rw [eq_none_of_optionRel hsame] at hperforms
    exact absurd (hr.symm.trans hperforms) (Option.some_ne_none _)
  | some result =>
    obtain ⟨_, p'⟩ := result
    rw [hserve] at hsame
    obtain ⟨⟨reply, e'⟩, hentry', rfl, hmirrors'⟩ := exists_of_optionRel hsame
    rw [hentry'] at hperforms
    obtain ⟨t, hperform, hserved⟩ := hperforms
    cases hr.symm.trans hperform
    have hstep : PrivateQueue.step P.unmerged q (some r) (queues q) = some ([reply], p') := by
      rw [hq, PrivateQueue.step, hserve]
      rfl
    exact ⟨_, steps_single _ hstep,
      h.served hserved (fun hge => absurd hlt (Nat.not_lt.mpr hge)) hmirrors'⟩

private theorem countP_isRegister_request (q : TaskQueueId) (r : Request τ W) :
    [StoreCall.request q r].countP StoreCall.isRegister = r.numbers := by
  cases r <;> rfl

/-- Every call is a step of the private queue it concerns, and of no other. -/
theorem Agrees.perform (h : Agrees n k s queues) {c : StoreCall τ W}
    (hn : n + [c].countP StoreCall.isRegister ≤ 2 ^ 32)
    (hk : k + [c].countP StoreCall.isCreate ≤ P.unmerged)
    (hc : QueueStore.perform P c s = some (o, s')) :
    ∃ queues', Steps P.unmerged o queues queues' ∧
      Agrees (n + [c].countP StoreCall.isRegister) (k + [c].countP StoreCall.isCreate) s'
        queues' := by
  cases c with
  | createTaskQueue =>
    rw [s.perform_createTaskQueue] at hc
    cases hc
    have hlt := P.unmerged_lt
    have hk' : k + 1 ≤ P.unmerged := hk
    rw [h.counter]
    exact ⟨_, steps_single (some .fresh) rfl, h.created (by omega)⟩
  | request q r =>
    rw [countP_isRegister_request] at hn ⊢
    cases hq : queues q with
    | none => exact h.request_absent hq hc
    | some p => exact h.request_known hq hn hk hc

theorem Agrees.run {calls : List (StoreCall τ W)} {tr : List (StoreEvent τ W)}
    (h : Agrees n k s queues) (hn : n + calls.countP StoreCall.isRegister ≤ 2 ^ 32)
    (hk : k + calls.countP StoreCall.isCreate ≤ P.unmerged)
    (hrun : exec (QueueStore.perform P) calls s = some (tr, s')) :
    ∃ queues', Steps P.unmerged tr queues queues' := by
  induction calls generalizing n k s tr queues with
  | nil =>
    cases hrun
    exact ⟨queues, fun _ => rfl⟩
  | cons c calls ih =>
    obtain ⟨o, t, tr', hc, hrest, rfl⟩ := exec_cons_eq_some.mp hrun
    rw [← List.singleton_append, List.countP_append, ← Nat.add_assoc] at hn hk
    obtain ⟨queues', hsteps, hagrees⟩ := h.perform (Nat.le_of_add_right_le hn)
      (Nat.le_of_add_right_le hk) hc
    obtain ⟨queues'', hsteps'⟩ := ih hagrees hn hk hrest
    exact ⟨queues'', steps_append hsteps hsteps'⟩

/-- Every queue of the store behaves as a private one: what its requests return and whom they wake
follows from the requests to it alone, whatever happens on the other queues in between. -/
theorem store_refines_privateQueue {calls : List (StoreCall τ W)} {tr : List (StoreEvent τ W)}
    (hn : calls.countP StoreCall.isRegister ≤ 2 ^ 32)
    (hk : calls.countP StoreCall.isCreate ≤ P.unmerged)
    (hrun : exec (QueueStore.perform P) calls QueueStore.initial = some (tr, s))
    (q : TaskQueueId) :
    ∃ p, exec (PrivateQueue.step P.unmerged q) (requestsTo q tr) none =
      some (repliesOf q tr, p) := by
  obtain ⟨queues, hsteps⟩ := agrees_initial.run (by rwa [Nat.zero_add]) (by rwa [Nat.zero_add]) hrun
  exact ⟨queues q, hsteps q⟩

end runs

/-- Two loops whose requests interleave. -/
def interleavedCalls : List (StoreCall Nat Bool) :=
  [.createTaskQueue, .createTaskQueue, .request 1 (.setWakeable true),
    .request 0 (.registerTask (some 7) 5), .request 1 (.registerTask (some 8) 9),
    .request 0 (.registerTask (some 6) 5), .request 1 (.registerTask (some 9) 3),
    .request 0 (.getNextTaskToRun 6), .request 1 (.getNextTaskToRun 6), .request 0 .dispose,
    .request 1 (.getNextTaskToRun 6), .request 0 (.getNextTaskToRun 6)]

theorem store_refines_privateQueue_interleaved :
    ∃ tr s, exec (QueueStore.perform (windows64 Nat)) interleavedCalls QueueStore.initial =
        some (tr, s) ∧
      repliesOf 1 tr = [(.done, []), (.done, []), (.done, [(true, 9)]), (.done, [(true, 3)]),
        (.task (some 9), [(true, 3)]), (.task none, [(true, 9)])] ∧
      ∀ q, ∃ p, exec (PrivateQueue.step (windows64 Nat).unmerged q) (requestsTo q tr) none =
        some (repliesOf q tr, p) := by
  have hrun : exec (QueueStore.perform (windows64 Nat)) interleavedCalls QueueStore.initial =
      some (_, _) := rfl
  exact ⟨_, _, hrun, rfl, store_refines_privateQueue (by decide) (by decide) hrun⟩

end CppImprovement.Wtf
