import CppImprovement.Wtf.TaskQueues

/-!
# The Windows message loop

The loop thread waits on an auto-reset waitable timer and then flushes its task queue. Every
operation on the queue re-arms the timer for the earliest task, which also takes back a signal
that is already there. A task must not be left in the queue of a blocked loop without a timer
that wakes the loop for it: this holds over all interleavings of the threads that post with
the steps of the loop.
-/

namespace CppImprovement.Wtf

variable {τ : Type}

/-! ## The timer -/

/-- A one-shot auto-reset timer: whether it is signalled, and the instant it is armed for. -/
structure WaitableTimer where
  signalled : Bool
  due : Option Int
deriving DecidableEq

/-- `SetWaitableTimer` with a due time in units of 100 nanoseconds: negative values count from
now, zero means immediately. Positive values are points of another clock; the loop passes none. -/
def setWaitableTimer (now dueTime : Int) : WaitableTimer :=
  if dueTime < 0 then { signalled := false, due := some (now + 100 * -dueTime) }
  else { signalled := true, due := none }

/-- `MessageLoopWin::WakeUp` at the time `now`; the division truncates. -/
def wakeUp (now timePoint : Int) : WaitableTimer :=
  let dueTime := if now < timePoint then (timePoint - now).tdiv (-100) else 0
  setWaitableTimer now dueTime

/-- The timer is signalled, or will be no later than at the given time. -/
def WaitableTimer.Covers (timer : WaitableTimer) (time : Int) : Prop :=
  timer.signalled = true ∨ ∃ due, timer.due = some due ∧ due ≤ time

/-- A wake-up for a time covers that time and all later ones. -/
theorem wakeUp_covers {now timePoint time : Int} (h : timePoint ≤ time) :
    (wakeUp now timePoint).Covers time := by
  rw [wakeUp]
  by_cases hlt : now < timePoint
  · rw [if_pos hlt, Int.tdiv_neg, setWaitableTimer]
    by_cases hneg : -(timePoint - now).tdiv 100 < 0
    · rw [if_pos hneg]
      refine Or.inr ⟨_, rfl, ?_⟩
      rw [Int.tdiv_eq_ediv_of_nonneg (by omega)]
      omega
    · rw [if_neg hneg]
      exact Or.inl rfl
  · rw [if_neg hlt]
    exact Or.inl rfl

/-! ## The loop -/

/-- Where the loop thread is: `entering` is between the test of `terminated_` in `DoRun` and the
store to `running_` in `Run`, `leaving` between the end of `Run` and the store to `terminated_`.
`last` marks the flush of `DoRun` after the loop has ended. -/
inductive Place
  | outside
  | entering
  | testing
  | waiting
  | leaving
  | woken (last : Bool)
  | flushing (now : Int) (last : Bool)
  | running (now : Int) (last : Bool)
  | disposing
deriving DecidableEq

/-- The loop thread has been woken and has not asked for a task since. -/
def Place.awake : Place → Bool
  | .woken _ => true
  | .flushing _ _ => true
  | _ => false

/-- A message loop, the queues it shares with other loops, its timer and the clock. `posting`
holds the calls of `PostTask` that have passed the test of `terminated_`. -/
structure MessageLoopWin (τ : Type) where
  address : Nat
  queueId : TaskQueueId
  queues : TaskQueues τ Nat
  timer : WaitableTimer
  clock : Int
  place : Place
  terminated : Bool
  running : Bool
  posting : List (Option τ × Int)

/-- An atomic step of some thread, or of the clock. -/
inductive LoopStep (τ : Type)
  | tick (now : Int)
  | fire
  | postTask (task : Option τ) (targetTime : Int)
  | registerTask (i : Nat)
  | registerElsewhere (q : TaskQueueId) (task : Option τ) (targetTime : Int)
  | takeElsewhere (q : TaskQueueId) (fromTime : Int)
  | setTerminated
  | clearRunning
  | wakeUpNow (timePoint : Int)
  | advance

namespace MessageLoopWin

/-- The wake-ups an operation on the queues has called reach the timer of this loop. -/
def answered (l : MessageLoopWin τ) (queues : TaskQueues τ Nat) : MessageLoopWin τ :=
  { l with
    queues := { queues with wakeUps := [] }
    timer := queues.wakeUps.foldl
      (fun timer w => if w.1 = l.address then wakeUp l.clock w.2 else timer) l.timer }

/-- The next step of the loop thread in `DoRun`, `Run` and `FlushTasks`; it shows the task it
starts. -/
def advance (P : Platform τ) (l : MessageLoopWin τ) : Option (List τ × MessageLoopWin τ) :=
  match l.place with
  | .outside =>
    if l.terminated then some ([], l) else some ([], { l with place := .entering })
  | .entering => some ([], { l with running := true, place := .testing })
  | .testing =>
    if l.running then some ([], { l with place := .waiting })
    else some ([], { l with place := .leaving })
  | .leaving => some ([], { l with terminated := true, place := .woken true })
  | .waiting =>
    if l.timer.signalled then
      some ([], { l with timer := { l.timer with signalled := false }, place := .woken false })
    else none
  | .woken last => some ([], { l with place := .flushing l.clock last })
  | .flushing now last =>
    match getNextTaskToRun P l.queueId now l.queues with
    | .ok (some task) queues =>
      some ([task], { l.answered queues with place := .running now last })
    | .ok none queues =>
      some ([], { l.answered queues with place := if last then .disposing else .testing })
    | .error _ _ => none
  | .running now last => some ([], { l with place := .flushing now last })
  | .disposing =>
    some ([], { l.answered (finalState (disposeTasks l.queueId l.queues)) with place := .outside })

/-- One step. -/
def step (P : Platform τ) : LoopStep τ → MessageLoopWin τ → Option (List τ × MessageLoopWin τ)
  | .tick now, l => if l.clock ≤ now then some ([], { l with clock := now }) else none
  | .fire, l =>
    match l.timer.due with
    | some due =>
      if due ≤ l.clock then some ([], { l with timer := { signalled := true, due := none } })
      else none
    | none => none
  | .postTask task targetTime, l =>
    if l.terminated then some ([], l)
    else some ([], { l with posting := l.posting ++ [(task, targetTime)] })
  | .registerTask i, l =>
    match l.posting[i]? with
    | some (task, targetTime) =>
      some ([], { l.answered (finalState (Wtf.registerTask P l.queueId task targetTime l.queues))
        with posting := l.posting.eraseIdx i })
    | none => none
  | .registerElsewhere q task targetTime, l =>
    if q = l.queueId then none
    else some ([], l.answered (finalState (Wtf.registerTask P q task targetTime l.queues)))
  | .takeElsewhere q fromTime, l =>
    if q = l.queueId then none
    else some ([], l.answered (finalState (takeNextTask P q fromTime l.queues)))
  | .setTerminated, l => some ([], { l with terminated := true })
  | .clearRunning, l => some ([], { l with running := false })
  | .wakeUpNow timePoint, l =>
    if timePoint ≤ l.clock then some ([], { l with timer := wakeUp l.clock timePoint }) else none
  | .advance, l => l.advance P

/-- The tasks waiting for this loop. -/
def pending (l : MessageLoopWin τ) : List (DelayedTask τ) := l.queues.pending l.queueId

/-- A loop that has just been constructed: its queue is empty and wakes it, and no other queue
does; the queue does not have the number that is reserved. -/
structure Constructed (P : Platform τ) (l : MessageLoopWin τ) : Prop where
  entry : l.queues.queueEntries l.queueId =
    some { wakeable := some l.address, delayedTaskQueue := [], ownerOf := l.queueId }
  merged : l.queueId ≠ P.unmerged
  others : ∀ q e, q ≠ l.queueId → l.queues.queueEntries q = some e →
    e.wakeable ≠ some l.address
  wakeUps : l.queues.wakeUps = []
  timer : l.timer = { signalled := false, due := none }
  place : l.place = .outside

/-! ## The invariant -/

/-- The timer covers every task of the loop. -/
def Covered (l : MessageLoopWin τ) : Prop :=
  ∀ d ∈ l.pending, l.timer.Covers d.targetTime

/-- The queue of the loop wakes it, and no other queue does. -/
structure Wired (P : Platform τ) (l : MessageLoopWin τ) : Prop where
  entry : ∃ e, l.queues.queueEntries l.queueId = some e ∧ e.wakeable = some l.address ∧
    e.ownerOf ≠ P.unmerged
  others : ∀ q e, q ≠ l.queueId → l.queues.queueEntries q = some e →
    e.wakeable ≠ some l.address
  wakeUps : l.queues.wakeUps = []

/-- Every waiting task has a timer, unless the loop thread is about to look at the queue. -/
structure Watched (P : Platform τ) (l : MessageLoopWin τ) : Prop where
  wired : l.Wired P
  covered : l.place.awake = false → l.Covered

theorem Constructed.watched {P : Platform τ} {l : MessageLoopWin τ} (h : l.Constructed P) :
    l.Watched P where
  wired := ⟨⟨_, h.entry, rfl, h.merged⟩, h.others, h.wakeUps⟩
  covered _ d hd := by
    rw [pending, pending_of_entry h.entry] at hd
    cases hd

section answers

variable {P : Platform τ} {l : MessageLoopWin τ} {s : TaskQueues τ Nat}
  {q : TaskQueueId} {e : TaskQueueEntry τ Nat} {t : Int}

private theorem timer_answered_quiet (hs : s.wakeUps = []) : (l.answered s).timer = l.timer := by
  rw [answered, hs]
  rfl

theorem timer_answered_woken (hs : s.wakeUps = []) (he : e.wakeable = some l.address) :
    (l.answered (s.woken e t)).timer = wakeUp l.clock t := by
  simp only [answered, TaskQueues.woken, he, hs, List.nil_append, List.foldl_cons, List.foldl_nil,
    if_true]

private theorem timer_answered_other (hs : s.wakeUps = []) (he : e.wakeable ≠ some l.address) :
    (l.answered (s.woken e t)).timer = l.timer := by
  rw [answered, TaskQueues.woken]
  cases hw : e.wakeable with
  | none => simp only [hs, List.foldl_nil]
  | some w =>
    have hne : w ≠ l.address := fun h => he (by rw [hw, h])
    simp only [hs, List.nil_append, List.foldl_cons, List.foldl_nil, if_neg hne]

/-- An entry is replaced by one that wakes the same loop. -/
theorem Wired.setEntry (h : l.Wired P) (order : BitVec 32) (e' : TaskQueueEntry τ Nat)
    (he : l.queues.queueEntries q = some e) (hw : e'.wakeable = e.wakeable)
    (ho : e'.ownerOf = e.ownerOf) :
    (l.answered ({ l.queues with order := order }.setEntry q e')).Wired P := by
  refine { entry := ?_, others := ?_, wakeUps := rfl }
  · obtain ⟨x, hx, hxw, hxo⟩ := h.entry
    by_cases hq : l.queueId = q
    · subst hq
      rw [he] at hx
      cases hx
      exact ⟨e', queueEntries_setEntry_self .., hw.trans hxw, ho ▸ hxo⟩
    · exact ⟨x, (queueEntries_setEntry_of_ne _ _ hq).trans hx, hxw, hxo⟩
  · intro p x hp hx
    change (TaskQueues.setEntry _ q e').queueEntries p = some x at hx
    by_cases hpq : p = q
    · subst hpq
      rw [queueEntries_setEntry_self] at hx
      cases hx
      rw [hw]
      exact h.others p e hp he
    · rw [queueEntries_setEntry_of_ne _ _ hpq] at hx
      exact h.others p x hp hx

theorem Wired.of_eq {l' : MessageLoopWin τ} (h : l.Wired P) (ha : l'.address = l.address)
    (hq : l'.queueId = l.queueId) (he : l'.queues.queueEntries = l.queues.queueEntries)
    (hw : l'.queues.wakeUps = []) : l'.Wired P where
  entry := by
    rw [ha, hq, he]
    exact h.entry
  others := by
    rw [ha, hq, he]
    exact h.others
  wakeUps := hw

end answers

section operations

variable {P : Platform τ} {l : MessageLoopWin τ} {q : TaskQueueId} {t : Int} {task : Option τ}

/-- Registering a task of the loop puts it in the queue and arms the timer for the earliest
one. -/
theorem Wired.register (h : l.Wired P) :
    (l.answered (finalState (registerTask P l.queueId task t l.queues))).Wired P ∧
      (l.answered (finalState (registerTask P l.queueId task t l.queues))).Covered ∧
      (l.answered (finalState (registerTask P l.queueId task t l.queues))).pending =
        l.pending ++ [⟨sizeOfOrder l.queues.order, task, t⟩] := by
  obtain ⟨e, he, hw, ho⟩ := h.entry
  have hn : (e.pushed ⟨sizeOfOrder l.queues.order, task, t⟩).delayedTaskQueue ≠ [] := by
    simp [TaskQueueEntry.pushed]
  obtain ⟨x, rest, hx⟩ := P.delayedTaskQueue.exists_extract hn
  rw [registerTask_known he ho hx, finalState]
  have hpending : (l.answered ((l.queues.registered l.queueId e
      ⟨sizeOfOrder l.queues.order, task, t⟩).woken e x.targetTime)).pending =
      (e.pushed ⟨sizeOfOrder l.queues.order, task, t⟩).delayedTaskQueue := by
    change (TaskQueues.woken (l.queues.registered _ _ _) _ _).pending l.queueId = _
    rw [pending_woken, TaskQueues.registered, pending_setEntry, if_pos rfl]
  refine ⟨?_, ?_, ?_⟩
  · have hset := h.setEntry (l.queues.order + 1) (e.pushed ⟨sizeOfOrder l.queues.order, task, t⟩)
      he rfl rfl
    exact hset.of_eq rfl rfl (queueEntries_woken ..) rfl
  · intro d hd
    rw [timer_answered_woken (s := l.queues.registered _ _ _) h.wakeUps hw]
    rw [hpending] at hd
    exact wakeUp_covers (targetTime_le_of_extract hx hd)
  · rw [hpending, pending, pending_of_entry he]
    rfl

/-- What a call of `GetNextTaskToRun` for the time `t` took: null, for nothing is due, or the
function of a task that is due. -/
def Took (l l' : MessageLoopWin τ) (t : Int) (r : Option τ) : Prop :=
  (r = none ∧ l'.pending = l.pending ∧ ∀ d ∈ l.pending, t < d.targetTime) ∨
    ∃ d, r = d.task ∧ d.targetTime ≤ t ∧ (d :: l'.pending).Perm l.pending

/-- Asking for the next task leaves the timer armed for what stays in the queue. -/
theorem Wired.take (h : l.Wired P) :
    ∃ r s, getNextTaskToRun P l.queueId t l.queues = .ok r s ∧ (l.answered s).Wired P ∧
      (l.answered s).Covered ∧ l.Took (l.answered s) t r := by
  obtain ⟨e, he, hw, ho⟩ := h.entry
  have hqueue : l.pending = e.delayedTaskQueue := pending_of_entry he
  by_cases hn : e.delayedTaskQueue = []
  · refine ⟨_, _, getNextTaskToRun_of_ok (takeNextTask_none he (Or.inr hn)), ?_, ?_, ?_⟩
    · exact h.of_eq rfl rfl rfl rfl
    · intro d hd
      change d ∈ l.pending at hd
      rw [hqueue, hn] at hd
      cases hd
    · refine Or.inl ⟨rfl, rfl, fun d hd => ?_⟩
      rw [hqueue, hn] at hd
      cases hd
  · obtain ⟨x, rest, hx⟩ := P.delayedTaskQueue.exists_extract hn
    by_cases ht : t < x.targetTime
    · have hpending : (l.answered (l.queues.woken e x.targetTime)).pending = l.pending :=
        pending_woken ..
      refine ⟨_, _, getNextTaskToRun_of_ok (takeNextTask_later he ho hx ht), ?_, ?_, ?_⟩
      · exact h.of_eq rfl rfl (queueEntries_woken ..) rfl
      · intro d hd
        rw [timer_answered_woken h.wakeUps hw]
        rw [hpending, hqueue] at hd
        exact wakeUp_covers (targetTime_le_of_extract hx hd)
      · refine Or.inl ⟨rfl, hpending, fun d hd => ?_⟩
        rw [hqueue] at hd
        exact Int.lt_of_lt_of_le ht (targetTime_le_of_extract hx hd)
    · have hle := Int.not_lt.mp ht
      have hpending : (l.answered ((l.queues.woken e x.targetTime).setEntry l.queueId
          { e with delayedTaskQueue := rest })).pending = rest := by
        change (TaskQueues.setEntry _ _ _).pending l.queueId = rest
        rw [pending_setEntry, if_pos rfl]
      refine ⟨_, _, getNextTaskToRun_of_ok (takeNextTask_due he ho hx hle), ?_, ?_, ?_⟩
      · rw [setEntry_woken]
        have hset := h.setEntry l.queues.order { e with delayedTaskQueue := rest } he rfl rfl
        exact hset.of_eq rfl rfl (queueEntries_woken ..) rfl
      · intro d hd
        rw [hpending] at hd
        rw [setEntry_woken, timer_answered_woken (s := l.queues.setEntry _ _) h.wakeUps hw]
        have hmem := (P.delayedTaskQueue.perm hx).subset (List.mem_cons_of_mem x hd)
        exact wakeUp_covers (targetTime_le_of_extract hx hmem)
      · refine Or.inr ⟨x, rfl, hle, ?_⟩
        rw [hpending, hqueue]
        exact P.delayedTaskQueue.perm hx

/-- What an operation on another queue leaves alone. -/
structure Elsewhere (P : Platform τ) (l l' : MessageLoopWin τ) : Prop where
  wired : l'.Wired P
  timer : l'.timer = l.timer
  pending : l'.pending = l.pending

private theorem Wired.elsewhere_quiet (h : l.Wired P) {s : TaskQueues τ Nat}
    (he : s.queueEntries = l.queues.queueEntries) (hw : s.wakeUps = []) :
    Elsewhere P l (l.answered s) where
  wired := h.of_eq rfl rfl he rfl
  timer := timer_answered_quiet hw
  pending := by
    change s.pending l.queueId = l.queues.pending l.queueId
    rw [TaskQueues.pending, he, TaskQueues.pending]

/-- A queue that does not wake this loop wakes its own. -/
theorem Elsewhere.woken {s : TaskQueues τ Nat} {e : TaskQueueEntry τ Nat}
    (h : Elsewhere P l (l.answered s)) (hs : s.wakeUps = []) (he : e.wakeable ≠ some l.address) :
    Elsewhere P l (l.answered (s.woken e t)) where
  wired := h.wired.of_eq rfl rfl (queueEntries_woken ..) rfl
  timer := timer_answered_other hs he
  pending := by
    rw [← h.pending]
    exact pending_woken ..

private theorem Wired.elsewhere_setEntry (h : l.Wired P) (order : BitVec 32)
    (e' : TaskQueueEntry τ Nat) {e : TaskQueueEntry τ Nat} (hq : q ≠ l.queueId)
    (he : l.queues.queueEntries q = some e) (hw : e'.wakeable = e.wakeable)
    (ho : e'.ownerOf = e.ownerOf) :
    Elsewhere P l (l.answered ({ l.queues with order := order }.setEntry q e')) where
  wired := h.setEntry order e' he hw ho
  timer := timer_answered_quiet h.wakeUps
  pending := by
    change (TaskQueues.setEntry _ q e').pending l.queueId = l.queues.pending l.queueId
    rw [pending_setEntry, if_neg (Ne.symm hq)]
    rfl

private theorem Wired.register_elsewhere (h : l.Wired P) (hq : q ≠ l.queueId) :
    Elsewhere P l (l.answered (finalState (registerTask P q task t l.queues))) := by
  cases he : l.queues.queueEntries q with
  | none =>
    rw [registerTask_unknown he]
    exact h.elsewhere_quiet rfl h.wakeUps
  | some e =>
    have hset := h.elsewhere_setEntry (l.queues.order + 1)
      (e.pushed ⟨sizeOfOrder l.queues.order, task, t⟩) hq he rfl rfl
    by_cases ho : e.ownerOf = P.unmerged
    · rw [registerTask_unmerged he ho]
      exact hset
    · have hn : (e.pushed ⟨sizeOfOrder l.queues.order, task, t⟩).delayedTaskQueue ≠ [] := by
        simp [TaskQueueEntry.pushed]
      obtain ⟨x, rest, hx⟩ := P.delayedTaskQueue.exists_extract hn
      rw [registerTask_known he ho hx]
      exact hset.woken h.wakeUps (h.others q e hq he)

private theorem Wired.take_elsewhere (h : l.Wired P) (hq : q ≠ l.queueId) :
    Elsewhere P l (l.answered (finalState (takeNextTask P q t l.queues))) := by
  have hself : Elsewhere P l (l.answered l.queues) := h.elsewhere_quiet rfl h.wakeUps
  cases he : l.queues.queueEntries q with
  | none =>
    rw [takeNextTask_unknown he]
    exact hself
  | some e =>
    by_cases hn : e.ownerOf = P.unmerged ∨ e.delayedTaskQueue = []
    · rw [takeNextTask_none he hn]
      exact hself
    · obtain ⟨ho, hne⟩ := not_or.mp hn
      obtain ⟨x, rest, hx⟩ := P.delayedTaskQueue.exists_extract hne
      by_cases ht : t < x.targetTime
      · rw [takeNextTask_later he ho hx ht]
        exact hself.woken h.wakeUps (h.others q e hq he)
      · rw [takeNextTask_due he ho hx (Int.not_lt.mp ht), finalState, setEntry_woken]
        have hset := h.elsewhere_setEntry l.queues.order { e with delayedTaskQueue := rest }
          hq he rfl rfl
        exact hset.woken h.wakeUps (h.others q e hq he)

/-- The step is one of the clock, the timer or another queue. -/
def isBeside : LoopStep τ → Bool
  | .tick _ => true
  | .fire => true
  | .registerElsewhere _ _ _ => true
  | .takeElsewhere _ _ => true
  | _ => false

/-- What such a step leaves alone. -/
structure Beside (l l' : MessageLoopWin τ) : Prop where
  posting : l'.posting = l.posting
  pending : l'.pending = l.pending
  place : l'.place = l.place
  terminated : l'.terminated = l.terminated
  running : l'.running = l.running
  clock : l.clock ≤ l'.clock
  signalled : l.timer.signalled = true → l'.timer.signalled = true

theorem Elsewhere.beside {s : TaskQueues τ Nat} (h : Elsewhere P l (l.answered s)) :
    Beside l (l.answered s) :=
  ⟨rfl, h.pending, rfl, rfl, rfl, Int.le_refl _, fun hs => h.timer ▸ hs⟩

theorem Wired.beside (h : l.Wired P) {i : LoopStep τ} (hi : isBeside i = true) {o : List τ}
    {l' : MessageLoopWin τ} (hstep : step P i l = some (o, l')) : Beside l l' := by
  cases i with
  | tick now =>
    rw [step] at hstep
    split at hstep
    · rename_i hle
      cases hstep
      exact ⟨rfl, rfl, rfl, rfl, rfl, hle, id⟩
    · cases hstep
  | fire =>
    rw [step] at hstep
    split at hstep
    · split at hstep
      · cases hstep
        exact ⟨rfl, rfl, rfl, rfl, rfl, Int.le_refl _, fun _ => rfl⟩
      · cases hstep
    · cases hstep
  | registerElsewhere q task t =>
    rw [step] at hstep
    split at hstep
    · cases hstep
    · rename_i hq
      cases hstep
      exact (h.register_elsewhere hq).beside
  | takeElsewhere q t =>
    rw [step] at hstep
    split at hstep
    · cases hstep
    · rename_i hq
      cases hstep
      exact (h.take_elsewhere hq).beside
  | postTask task t => cases hi
  | registerTask j => cases hi
  | setTerminated => cases hi
  | clearRunning => cases hi
  | wakeUpNow t => cases hi
  | advance => cases hi

end operations

/-! ## All interleavings -/

section run

variable {P : Platform τ} {l : MessageLoopWin τ}

/-- A step that touches neither the queue nor, while the loop may sleep, the timer. -/
theorem Watched.of_eq {l' : MessageLoopWin τ} (h : l.Watched P) (ha : l'.address = l.address)
    (hid : l'.queueId = l.queueId) (hqueues : l'.queues = l.queues)
    (hcovered : l'.place.awake = false → l.place.awake = false ∧ l'.timer = l.timer) :
    l'.Watched P where
  wired := h.wired.of_eq ha hid (by rw [hqueues]) (by rw [hqueues]; exact h.wired.wakeUps)
  covered hplace := by
    obtain ⟨hawake, htimer⟩ := hcovered hplace
    intro d hd
    rw [htimer]
    rw [pending, hqueues, hid] at hd
    exact h.covered hawake d hd

private theorem Watched.elsewhere {l' : MessageLoopWin τ} (h : l.Watched P) (he : Elsewhere P l l')
    (hplace : l'.place = l.place) : l'.Watched P where
  wired := he.wired
  covered hawake d hd := by
    rw [he.timer]
    rw [he.pending] at hd
    exact h.covered (hplace ▸ hawake) d hd

/-- Every step of the loop thread keeps the tasks watched. -/
theorem Watched.advance (h : l.Watched P) {o : List τ} {l' : MessageLoopWin τ}
    (hstep : l.advance P = some (o, l')) : l'.Watched P := by
  rw [MessageLoopWin.advance] at hstep
  cases hplace : l.place with
  | outside =>
    simp only [hplace] at hstep
    split at hstep
    · cases hstep
      exact h
    · cases hstep
      exact h.of_eq rfl rfl rfl fun _ => ⟨by rw [hplace]; rfl, rfl⟩
  | entering =>
    simp only [hplace] at hstep
    cases hstep
    exact h.of_eq rfl rfl rfl fun _ => ⟨by rw [hplace]; rfl, rfl⟩
  | testing =>
    simp only [hplace] at hstep
    split at hstep
    · cases hstep
      exact h.of_eq rfl rfl rfl fun _ => ⟨by rw [hplace]; rfl, rfl⟩
    · cases hstep
      exact h.of_eq rfl rfl rfl fun _ => ⟨by rw [hplace]; rfl, rfl⟩
  | leaving =>
    simp only [hplace] at hstep
    cases hstep
    exact h.of_eq rfl rfl rfl fun hp => by cases hp
  | waiting =>
    simp only [hplace] at hstep
    split at hstep
    · cases hstep
      exact h.of_eq rfl rfl rfl fun hp => by cases hp
    · cases hstep
  | woken last =>
    simp only [hplace] at hstep
    cases hstep
    exact h.of_eq rfl rfl rfl fun hp => by cases hp
  | flushing now last =>
    simp only [hplace] at hstep
    obtain ⟨r, s, hr, hwired, hcovered, -⟩ := h.wired.take (t := now)
    rw [hr] at hstep
    cases r with
    | none =>
      cases hstep
      exact ⟨hwired.of_eq rfl rfl rfl rfl, fun _ => hcovered⟩
    | some f =>
      cases hstep
      exact ⟨hwired.of_eq rfl rfl rfl rfl, fun _ => hcovered⟩
  | running now last =>
    simp only [hplace] at hstep
    cases hstep
    exact h.of_eq rfl rfl rfl fun hp => by cases hp
  | disposing =>
    simp only [hplace] at hstep
    cases hstep
    obtain ⟨e, he, hw, ho⟩ := h.wired.entry
    have hset := h.wired.setEntry l.queues.order { e with delayedTaskQueue := [] } he rfl rfl
    rw [disposeTasks_known he]
    refine ⟨hset.of_eq rfl rfl rfl rfl, fun _ d hd => ?_⟩
    change d ∈ (TaskQueues.setEntry _ l.queueId _).pending l.queueId at hd
    rw [pending_setEntry, if_pos rfl] at hd
    cases hd

/-- Every step of any thread keeps the tasks watched. -/
theorem Watched.step (h : l.Watched P) {i : LoopStep τ} {o : List τ} {l' : MessageLoopWin τ}
    (hstep : MessageLoopWin.step P i l = some (o, l')) : l'.Watched P := by
  cases i with
  | tick now =>
    rw [MessageLoopWin.step] at hstep
    split at hstep
    · cases hstep
      exact h.of_eq rfl rfl rfl fun hp => ⟨hp, rfl⟩
    · cases hstep
  | fire =>
    rw [MessageLoopWin.step] at hstep
    split at hstep
    · split at hstep
      · cases hstep
        exact ⟨h.wired.of_eq rfl rfl rfl h.wired.wakeUps, fun _ _ _ => Or.inl rfl⟩
      · cases hstep
    · cases hstep
  | postTask task targetTime =>
    rw [MessageLoopWin.step] at hstep
    split at hstep
    · cases hstep
      exact h
    · cases hstep
      exact h.of_eq rfl rfl rfl fun hp => ⟨hp, rfl⟩
  | registerTask i =>
    rw [MessageLoopWin.step] at hstep
    split at hstep
    · cases hstep
      obtain ⟨hwired, hcovered, -⟩ := h.wired.register
      exact ⟨hwired.of_eq rfl rfl rfl rfl, fun _ => hcovered⟩
    · cases hstep
  | registerElsewhere q task targetTime =>
    rw [MessageLoopWin.step] at hstep
    split at hstep
    · cases hstep
    · rename_i hq
      cases hstep
      exact h.elsewhere (h.wired.register_elsewhere hq) rfl
  | takeElsewhere q fromTime =>
    rw [MessageLoopWin.step] at hstep
    split at hstep
    · cases hstep
    · rename_i hq
      cases hstep
      exact h.elsewhere (h.wired.take_elsewhere hq) rfl
  | setTerminated =>
    cases hstep
    exact h.of_eq rfl rfl rfl fun hp => ⟨hp, rfl⟩
  | clearRunning =>
    cases hstep
    exact h.of_eq rfl rfl rfl fun hp => ⟨hp, rfl⟩
  | wakeUpNow timePoint =>
    rw [MessageLoopWin.step] at hstep
    split at hstep
    · rename_i hle
      cases hstep
      have hsignalled : (wakeUp l.clock timePoint).signalled = true := by
        rw [wakeUp, if_neg (Int.not_lt.mpr hle)]
        rfl
      exact ⟨h.wired.of_eq rfl rfl rfl h.wired.wakeUps, fun _ _ _ => Or.inl hsignalled⟩
    · cases hstep
  | advance => exact h.advance hstep

end run

/-- In every interleaving, a loop that is blocked in its wait while tasks are pending has a timer
that is signalled or armed no later than for the earliest of them. -/
theorem no_lost_wakeUp (P : Platform τ) {l l' : MessageLoopWin τ} (h : l.Constructed P)
    {steps : List (LoopStep τ)} {o : List τ} (hrun : exec (step P) steps l = some (o, l'))
    (hwaiting : l'.place = .waiting) (hpending : l'.pending ≠ []) :
    l'.timer.signalled = true ∨
      ∃ due, l'.timer.due = some due ∧ ∀ d ∈ l'.pending, due ≤ d.targetTime := by
  have hwatched : l'.Watched P :=
    exec_keeps (fun _ _ _ _ hw hs => Watched.step hw hs) h.watched hrun
  have hcovered := hwatched.covered (by rw [hwaiting]; rfl)
  obtain ⟨d, hd⟩ := List.exists_mem_of_ne_nil _ hpending
  rcases hcovered d hd with hs | ⟨due, hdue, -⟩
  · exact Or.inl hs
  · by_cases hs : l'.timer.signalled = true
    · exact Or.inl hs
    · refine Or.inr ⟨due, hdue, fun x hx => ?_⟩
      obtain ⟨due', hdue', hle⟩ := (hcovered x hx).resolve_left hs
      rw [hdue] at hdue'
      cases hdue'
      exact hle

/-- A loop on the first queue of a process, at time zero. -/
def first (τ : Type) : MessageLoopWin τ where
  address := 1
  queueId := 0
  queues :=
    { queueEntries := fun q =>
        if q = 0 then some { wakeable := some 1, delayedTaskQueue := [], ownerOf := 0 } else none
      taskQueueIdCounter := 1
      order := 0
      wakeUps := [] }
  timer := { signalled := false, due := none }
  clock := 0
  place := .outside
  terminated := false
  running := false
  posting := []

theorem first_constructed (τ : Type) : (first τ).Constructed (windows64 τ) where
  entry := rfl
  merged := by
    change 0 ≠ 2 ^ 32 - 1
    decide
  others q e hq he := by
    change (if q = 0 then _ else none) = some e at he
    rw [if_neg (show q ≠ 0 from hq)] at he
    cases he
  wakeUps := rfl
  timer := rfl
  place := rfl

/-- A task for the time 1050 is posted, and the loop blocks. -/
def postAndBlock : List (LoopStep Nat) :=
  [.postTask (some 7) 1050, .registerTask 0, .advance, .advance, .advance]

theorem no_lost_wakeUp_sample :
    ∃ o l', exec (step (windows64 Nat)) postAndBlock (first Nat) = some (o, l') ∧
      l'.place = .waiting ∧ l'.timer = { signalled := false, due := some 1000 } ∧
      (l'.timer.signalled = true ∨
        ∃ due, l'.timer.due = some due ∧ ∀ d ∈ l'.pending, due ≤ d.targetTime) := by
  refine ⟨_, _, rfl, rfl, rfl, ?_⟩
  exact @no_lost_wakeUp Nat (windows64 Nat) (first Nat) _ (first_constructed Nat) postAndBlock _
    rfl rfl (List.cons_ne_nil _ _)

end MessageLoopWin

end CppImprovement.Wtf
