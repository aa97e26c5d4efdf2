import CppImprovement.Wtf.MessageLoopWin

/-!
# Terminating the message loop

`DoTerminate` stores to `terminated_` and to `running_` and then signals the timer, while `Run`
stores to `running_` as well and every registered task sets the timer anew. All of these are
separate steps. A loop that a completed call finds in its wait must be woken: this holds over the
interleavings in which `Run` does not overwrite the store of a call, and no task that is not due
takes the signal back.
-/

namespace CppImprovement.Wtf

variable {τ : Type}

/-- How far a call of `DoTerminate` has come: it has stored to `terminated_`, it has stored to
`running_`, or it has read the time for which it wakes the loop. -/
inductive TerminateStage
  | terminated
  | cleared
  | waking (timePoint : Int)
deriving DecidableEq

/-- The call has stored to `running_`. -/
def TerminateStage.hasCleared : TerminateStage → Bool
  | .terminated => false
  | .cleared => true
  | .waking _ => true

/-- A message loop with the call of `RegisterTask` that holds `queue_mutex_` for it, if any, the
calls of `DoTerminate` that are in progress, and whether one has completed. -/
structure Terminating (τ : Type) where
  loop : MessageLoopWin τ
  registering : Option Nat
  calls : List TerminateStage
  completed : Bool

/-- An atomic step: `registerTask` takes the mutex for one of the posted tasks and `rearm` sets
the timer for the earliest one and releases it; `proceed` is the next step of a call of
`DoTerminate`. -/
inductive TerminatingStep (τ : Type)
  | loop (i : LoopStep τ)
  | registerTask (i : Nat)
  | rearm
  | doTerminate
  | proceed (j : Nat)

/-- The step is a part of `RegisterTask` on this queue or of `DoTerminate`. -/
def LoopStep.isPart : LoopStep τ → Bool
  | .registerTask _ => true
  | .setTerminated => true
  | .clearRunning => true
  | .wakeUpNow _ => true
  | _ => false

/-- The loop thread needs `queue_mutex_` for its next step. -/
def Place.locks : Place → Bool
  | .flushing _ _ => true
  | .disposing => true
  | _ => false

/-- The step needs `queue_mutex_`. -/
def LoopStep.locks (place : Place) : LoopStep τ → Bool
  | .registerElsewhere _ _ _ => true
  | .takeElsewhere _ _ => true
  | .advance => place.locks
  | _ => false

namespace Terminating

/-- A step of the loop within this state. -/
def lift (P : Platform τ) (i : LoopStep τ) (s : Terminating τ) :
    Option (List τ × Terminating τ) :=
  (MessageLoopWin.step P i s.loop).map fun r => (r.1, { s with loop := r.2 })

/-- One step. Nobody sees the task of a call of `RegisterTask` before it releases the mutex, so
the task enters the queue when the timer is set. -/
def step (P : Platform τ) :
    TerminatingStep τ → Terminating τ → Option (List τ × Terminating τ)
  | .loop i, s =>
    if i.isPart || s.registering.isSome && i.locks s.loop.place then none else s.lift P i
  | .registerTask i, s =>
    if s.registering.isSome then none
    else if i < s.loop.posting.length then some ([], { s with registering := some i })
    else none
  | .rearm, s =>
    match s.registering with
    | some i => { s with registering := none }.lift P (.registerTask i)
    | none => none
  | .doTerminate, s =>
    { s with calls := s.calls ++ [TerminateStage.terminated] }.lift P .setTerminated
  | .proceed j, s =>
    match s.calls[j]? with
    | some .terminated => { s with calls := s.calls.set j .cleared }.lift P .clearRunning
    | some .cleared => some ([], { s with calls := s.calls.set j (.waking s.loop.clock) })
    | some (.waking timePoint) =>
      { s with calls := s.calls.eraseIdx j, completed := true }.lift P (.wakeUpNow timePoint)
    | none => none

/-- Some call of `DoTerminate` has stored to `running_`. -/
def cleared (s : Terminating τ) : Bool := s.completed || s.calls.any TerminateStage.hasCleared

/-- A time that `WakeUp` does not set the timer for but signals it at once: the timer counts in
units of 100 nanoseconds. -/
def Due (s : Terminating τ) (time : Int) : Prop := time < s.loop.clock + 100

instance (s : Terminating τ) (time : Int) : Decidable (s.Due time) :=
  inferInstanceAs (Decidable (_ < _))

/-- The task that is being registered or one that is waiting is due. -/
def AnyDue (s : Terminating τ) : Prop :=
  (∃ i ∈ s.registering, ∃ p ∈ s.loop.posting[i]?, s.Due p.2) ∨
    ∃ d ∈ s.loop.pending, s.Due d.targetTime

instance (s : Terminating τ) : Decidable s.AnyDue :=
  inferInstanceAs (Decidable (_ ∨ _))

/-- The two steps that can undo a call of `DoTerminate`: `Run` stores to `running_` only before
any call has done so, and a task is registered while the loop that a completed call has signalled
is still in its wait only when some task is due. -/
def Respects : TerminatingStep τ → Terminating τ → Prop
  | .loop .advance, s => s.loop.place = .entering → s.cleared = false
  | .rearm, s => s.completed = true → s.loop.place = .waiting → s.AnyDue
  | _, _ => True

instance : ∀ (i : TerminatingStep τ) (s : Terminating τ), Decidable (Respects i s) := by
  intro i s
  unfold Respects
  split <;> infer_instance

/-- A loop that has just been constructed, before any call. -/
structure Constructed (P : Platform τ) (s : Terminating τ) : Prop where
  loop : s.loop.Constructed P
  registering : s.registering = none
  calls : s.calls = []
  completed : s.completed = false

end Terminating

/-! ## One step of the loop -/

/-- A wake-up signals the timer at once exactly when it is for a time that is due. -/
theorem signalled_wakeUp {now timePoint : Int} :
    (wakeUp now timePoint).signalled = true ↔ timePoint < now + 100 := by
  rw [wakeUp]
  by_cases hlt : now < timePoint
  · rw [if_pos hlt, Int.tdiv_neg, setWaitableTimer, Int.tdiv_eq_ediv_of_nonneg (by omega)]
    split
    · simp only [Bool.false_eq_true, false_iff]
      omega
    · simp only [true_iff]
      omega
  · rw [if_neg hlt]
    simp only [setWaitableTimer, Int.lt_irrefl, if_false, true_iff]
    omega

namespace MessageLoopWin

variable {P : Platform τ} {l l' : MessageLoopWin τ} {i : LoopStep τ} {o : List τ}

/-- What the steps outside `RegisterTask` and `DoTerminate` do to the clock, to `running_` and to
a loop in its wait. -/
structure Moved (i : LoopStep τ) (l l' : MessageLoopWin τ) : Prop where
  clock : l.clock ≤ l'.clock
  running : l'.running = l.running ∨ i = .advance ∧ l.place = .entering
  waiting : l'.place = .waiting → l.running = true ∨
    l.place = .waiting ∧ (l.timer.signalled = true → l'.timer.signalled = true)

/-- A step that leaves the clock, `running_`, the place and the timer alone. -/
theorem Moved.of_eq (hc : l'.clock = l.clock) (hr : l'.running = l.running)
    (hp : l'.place = l.place) (ht : l'.timer = l.timer) : Moved i l l' where
  clock := Int.le_of_eq hc.symm
  running := Or.inl hr
  waiting hw := Or.inr ⟨hp ▸ hw, fun hs => ht ▸ hs⟩

/-- A step that does not enter the wait. -/
theorem Moved.of_awake (hc : l'.clock = l.clock) (hr : l'.running = l.running)
    (hp : l'.place ≠ .waiting) : Moved i l l' where
  clock := Int.le_of_eq hc.symm
  running := Or.inl hr
  waiting hw := absurd hw hp

private theorem moved_advance (hstep : l.advance P = some (o, l')) : Moved .advance l l' := by
  rw [advance] at hstep
  cases hplace : l.place with
  | outside =>
    simp only [hplace] at hstep
    split at hstep
    · cases hstep
      exact Moved.of_eq rfl rfl rfl rfl
    · cases hstep
      exact Moved.of_awake rfl rfl (by rintro ⟨⟩)
  | entering =>
    simp only [hplace] at hstep
    cases hstep
    exact ⟨Int.le_refl _, Or.inr ⟨rfl, hplace⟩, (by rintro ⟨⟩)⟩
  | testing =>
    simp only [hplace] at hstep
    split at hstep
    · rename_i hrunning
      cases hstep
      exact ⟨Int.le_refl _, Or.inl rfl, fun _ => Or.inl hrunning⟩
    · cases hstep
      exact Moved.of_awake rfl rfl (by rintro ⟨⟩)
  | leaving =>
    simp only [hplace] at hstep
    cases hstep
    exact Moved.of_awake rfl rfl (by rintro ⟨⟩)
  | waiting =>
    simp only [hplace] at hstep
    split at hstep
    · cases hstep
      exact Moved.of_awake rfl rfl (by rintro ⟨⟩)
    · cases hstep
  | woken last =>
    simp only [hplace] at hstep
    cases hstep
    exact Moved.of_awake rfl rfl (by rintro ⟨⟩)
  | flushing now last =>
    simp only [hplace] at hstep
    split at hstep
    · cases hstep
      exact Moved.of_awake rfl rfl (by rintro ⟨⟩)
    · cases hstep
      refine Moved.of_awake rfl rfl ?_
      cases last with
      | false => rintro ⟨⟩
      | true => rintro ⟨⟩
    · cases hstep
  | running now last =>
    simp only [hplace] at hstep
    cases hstep
    exact Moved.of_awake rfl rfl (by rintro ⟨⟩)
  | disposing =>
    simp only [hplace] at hstep
    cases hstep
    exact Moved.of_awake rfl rfl (by rintro ⟨⟩)

private theorem Beside.moved (h : Beside l l') : Moved i l l' where
  clock := h.clock
  running := Or.inl h.running
  waiting hw := Or.inr ⟨h.place ▸ hw, h.signalled⟩

private theorem Wired.moved (h : l.Wired P) (hi : i.isPart = false)
    (hstep : step P i l = some (o, l')) : Moved i l l' := by
  cases i with
  | postTask task targetTime =>
    rw [step] at hstep
    split at hstep
    · cases hstep
      exact Moved.of_eq rfl rfl rfl rfl
    · cases hstep
      exact Moved.of_eq rfl rfl rfl rfl
  | advance => exact moved_advance hstep
  | registerTask _ => cases hi
  | setTerminated => cases hi
  | clearRunning => cases hi
  | wakeUpNow _ => cases hi
  | _ => exact (h.beside rfl hstep).moved

/-- After a task has been registered the timer is signalled exactly when this task or one that
was waiting is due. -/
theorem Wired.signalled_register {task : Option τ} {t : Int} (h : l.Wired P) :
    (l.answered (finalState (registerTask P l.queueId task t l.queues))).timer.signalled = true ↔
      t < l.clock + 100 ∨ ∃ d ∈ l.pending, d.targetTime < l.clock + 100 := by
  obtain ⟨e, he, hw, ho⟩ := h.entry
  have hn : (e.pushed ⟨sizeOfOrder l.queues.order, task, t⟩).delayedTaskQueue ≠ [] := by
    simp [TaskQueueEntry.pushed]
  obtain ⟨x, rest, hx⟩ := P.delayedTaskQueue.exists_extract hn
  have hpending : l.pending = e.delayedTaskQueue := pending_of_entry he
  rw [registerTask_known he ho hx, finalState,
    timer_answered_woken (s := l.queues.registered _ _ _) h.wakeUps hw, signalled_wakeUp, hpending]
  constructor
  · intro hdue
    have hmem := (P.delayedTaskQueue.perm hx).subset (List.mem_cons_self ..)
    rcases List.mem_append.mp hmem with hold | hnew
    · exact Or.inr ⟨x, hold, hdue⟩
    · rw [List.mem_singleton.mp hnew] at hdue
      exact Or.inl hdue
  · rintro (hdue | ⟨d, hd, hdue⟩)
    · have hle := targetTime_le_of_extract hx (List.mem_append_right _ (List.mem_singleton_self _))
      exact Int.lt_of_le_of_lt hle hdue
    · have hle := targetTime_le_of_extract hx (List.mem_append_left _ hd)
      exact Int.lt_of_le_of_lt hle hdue

end MessageLoopWin

/-! ## All interleavings -/

namespace Terminating

section run

variable {P : Platform τ} {s s' : Terminating τ} {i : TerminatingStep τ} {o : List τ}

/-- Once a call has stored to `running_` the loop does not run on, and a loop that is still in its
wait when a call has completed is signalled. -/
structure Sound (P : Platform τ) (s : Terminating τ) : Prop where
  watched : s.loop.Watched P
  cleared : s.cleared = true → s.loop.running = false
  waking : ∀ t, .waking t ∈ s.calls → t ≤ s.loop.clock
  completed : s.completed = true → s.loop.place = .waiting → s.loop.timer.signalled = true

theorem Constructed.sound (h : s.Constructed P) : s.Sound P where
  watched := h.loop.watched
  cleared hc := by
    rw [Terminating.cleared, h.completed, h.calls] at hc
    cases hc
  waking t ht := by
    rw [h.calls] at ht
    cases ht
  completed hc := by
    rw [h.completed] at hc
    cases hc

theorem lift_eq_some {i : LoopStep τ} (h : s.lift P i = some (o, s')) :
    ∃ l, MessageLoopWin.step P i s.loop = some (o, l) ∧ s' = { s with loop := l } := by
  obtain ⟨⟨o', l⟩, hl, heq⟩ := Option.map_eq_some_iff.mp h
  cases heq
  exact ⟨l, hl, rfl⟩

private theorem cleared_of_completed (h : s.completed = true) : s.cleared = true := by
  rw [Terminating.cleared, h, Bool.true_or]

private theorem cleared_of_mem {c : TerminateStage} (hc : c ∈ s.calls) (h : c.hasCleared = true) :
    s.cleared = true := by
  rw [Terminating.cleared, Bool.or_eq_true, List.any_eq_true]
  exact Or.inr ⟨c, hc, h⟩

/-- A step of the loop thread, of the clock or on another queue. -/
theorem Sound.loop {i : LoopStep τ} (h : s.Sound P) (hi : i.isPart = false)
    (hr : Respects (.loop i) s) {l : MessageLoopWin τ}
    (hstep : MessageLoopWin.step P i s.loop = some (o, l)) : { s with loop := l }.Sound P := by
  have hmoved := h.watched.wired.moved hi hstep
  have hrunning : s.cleared = true → l.running = false := fun hc => by
    rcases hmoved.running with heq | ⟨rfl, hplace⟩
    · exact heq.trans (h.cleared hc)
    · rw [hr hplace] at hc
      cases hc
  refine ⟨h.watched.step hstep, hrunning, fun t ht => ?_, fun hc hw => ?_⟩
  · exact Int.le_trans (h.waking t ht) hmoved.clock
  · rcases hmoved.waiting hw with hrun | ⟨hplace, hsignal⟩
    · rw [h.cleared (cleared_of_completed hc)] at hrun
      cases hrun
    · exact hsignal (h.completed hc hplace)

/-- The timer is set for a registered task. -/
theorem Sound.rearm (h : s.Sound P) {j : Nat} (hj : s.registering = some j)
    (hr : Respects .rearm s) {l : MessageLoopWin τ}
    (hstep : MessageLoopWin.step P (.registerTask j) s.loop = some (o, l)) :
    { s with registering := none, loop := l }.Sound P := by
  have hwatched := h.watched.step hstep
  rw [MessageLoopWin.step] at hstep
  split at hstep
  · rename_i task t hp
    cases hstep
    refine ⟨hwatched, h.cleared, h.waking, fun hc hw => ?_⟩
    refine h.watched.wired.signalled_register.mpr ?_
    rcases hr hc hw with ⟨k, hk, p, hpk, hdue⟩ | hdue
    · rw [hj] at hk
      cases hk
      rw [hp] at hpk
      cases hpk
      exact Or.inl hdue
    · exact Or.inr hdue
  · cases hstep

private theorem Sound.doTerminate (h : s.Sound P) {l : MessageLoopWin τ}
    (hstep : MessageLoopWin.step P .setTerminated s.loop = some (o, l)) :
    { s with calls := s.calls ++ [TerminateStage.terminated], loop := l }.Sound P := by
  have hwatched := h.watched.step hstep
  cases hstep
  refine ⟨hwatched, fun hc => h.cleared ?_, fun t ht => h.waking t ?_, h.completed⟩
  · simpa [Terminating.cleared, TerminateStage.hasCleared] using hc
  · simpa using ht

/-- A call stores to `running_`. -/
theorem Sound.clears (h : s.Sound P) {j : Nat} {l : MessageLoopWin τ}
    (hstep : MessageLoopWin.step P .clearRunning s.loop = some (o, l)) :
    { s with calls := s.calls.set j .cleared, loop := l }.Sound P := by
  have hwatched := h.watched.step hstep
  cases hstep
  refine ⟨hwatched, fun _ => rfl, fun t ht => ?_, h.completed⟩
  rcases List.mem_or_eq_of_mem_set ht with hmem | heq
  · exact h.waking t hmem
  · cases heq

/-- A call that has stored to `running_` reads the clock. -/
theorem Sound.reads (h : s.Sound P) {j : Nat} (hj : s.calls[j]? = some .cleared) :
    { s with calls := s.calls.set j (.waking s.loop.clock) }.Sound P := by
  have hcleared := cleared_of_mem (List.mem_of_getElem? hj) rfl
  refine ⟨h.watched, fun _ => h.cleared hcleared, fun t ht => ?_, h.completed⟩
  rcases List.mem_or_eq_of_mem_set ht with hmem | heq
  · exact h.waking t hmem
  · cases heq
    exact Int.le_refl _

/-- A call signals the timer, and completes. -/
theorem Sound.wakes (h : s.Sound P) {j : Nat} {t : Int} (hj : s.calls[j]? = some (.waking t))
    {l : MessageLoopWin τ}
    (hstep : MessageLoopWin.step P (.wakeUpNow t) s.loop = some (o, l)) :
    { s with calls := s.calls.eraseIdx j, completed := true, loop := l }.Sound P := by
  have hmem := List.mem_of_getElem? hj
  have hcleared := cleared_of_mem hmem rfl
  have hle := h.waking t hmem
  have hwatched := h.watched.step hstep
  rw [MessageLoopWin.step, if_pos hle] at hstep
  cases hstep
  refine ⟨hwatched, fun _ => h.cleared hcleared, fun u hu => ?_, fun _ _ => ?_⟩
  · exact h.waking u (List.mem_of_mem_eraseIdx hu)
  · exact signalled_wakeUp.mpr (by omega)

/-- Every step that respects the calls keeps the loop sound. -/
theorem Sound.step (h : s.Sound P) (hr : Respects i s)
    (hstep : Terminating.step P i s = some (o, s')) : s'.Sound P := by
  cases i with
  | loop i =>
    rw [Terminating.step] at hstep
    split at hstep
    · cases hstep
    · rename_i hpart
      obtain ⟨l, hl, rfl⟩ := lift_eq_some hstep
      exact h.loop (by simp_all) hr hl
  | registerTask j =>
    rw [Terminating.step] at hstep
    split at hstep
    · cases hstep
    · split at hstep
      · cases hstep
        exact ⟨h.watched, h.cleared, h.waking, h.completed⟩
      · cases hstep
  | rearm =>
    rw [Terminating.step] at hstep
    split at hstep
    · rename_i j hj
      obtain ⟨l, hl, rfl⟩ := lift_eq_some hstep
      exact h.rearm hj hr hl
    · cases hstep
  | doTerminate =>
    obtain ⟨l, hl, rfl⟩ := lift_eq_some hstep
    exact h.doTerminate hl
  | proceed j =>
    rw [Terminating.step] at hstep
    split at hstep
    · obtain ⟨l, hl, rfl⟩ := lift_eq_some hstep
      exact h.clears hl
    · rename_i hj
      cases hstep
      exact h.reads hj
    · rename_i t hj
      obtain ⟨l, hl, rfl⟩ := lift_eq_some hstep
      exact h.wakes hj hl
    · cases hstep

end run

/-- In every interleaving in which `Run` does not overwrite the store of a call of `DoTerminate`
and no registered task takes the signal of a completed one back, a loop that is in its wait when a
call has completed is signalled. -/
theorem terminated_awake (P : Platform τ) {s s' : Terminating τ} (h : s.Constructed P)
    {steps : List (TerminatingStep τ)} {o : List τ}
    (hrun : exec (guarded Respects (step P)) steps s = some (o, s'))
    (hcompleted : s'.completed = true) (hwaiting : s'.loop.place = .waiting) :
    s'.loop.timer.signalled = true := by
  have hsound : s'.Sound P := exec_keeps
    (fun i s o t hs hstep => by
      obtain ⟨hr, hi⟩ := guarded_eq_some.mp hstep
      exact Sound.step hs hr hi)
    h.sound hrun
  exact hsound.completed hcompleted hwaiting

/-- The loop of a new thread. -/
def newLoop : Terminating Nat where
  loop := MessageLoopWin.first Nat
  registering := none
  calls := []
  completed := false

theorem newLoop_constructed : newLoop.Constructed (windows64 Nat) :=
  ⟨MessageLoopWin.first_constructed Nat, rfl, rfl, rfl⟩

/-- The loop goes into its wait, one thread passes the test of `terminated_`, another terminates
the loop, and the first registers a task that is due. -/
theorem terminated_awake_sample :
    ∃ o s', exec (guarded Respects (step (windows64 Nat)))
        [.loop .advance, .loop .advance, .loop .advance, .loop (.postTask (some 7) 0),
          .doTerminate, .proceed 0, .registerTask 0, .proceed 0, .proceed 0, .rearm] newLoop =
        some (o, s') ∧
      s'.completed = true ∧ s'.loop.place = .waiting ∧ s'.loop.timer.signalled = true := by
  refine ⟨_, _, rfl, rfl, rfl, ?_⟩
  exact @terminated_awake Nat (windows64 Nat) newLoop _ newLoop_constructed
    [.loop .advance, .loop .advance, .loop .advance, .loop (.postTask (some 7) 0),
      .doTerminate, .proceed 0, .registerTask 0, .proceed 0, .proceed 0, .rearm] [] rfl rfl rfl

/-- The loop is terminated between the test of `terminated_` in `DoRun` and the store to
`running_` in `Run`: it is woken once, finds nothing to do, and sleeps for ever. -/
theorem terminated_asleep :
    ¬ ∀ (P : Platform Nat) (s s' : Terminating Nat) (steps : List (TerminatingStep Nat))
      (o : List Nat), s.Constructed P → exec (step P) steps s = some (o, s') →
      s'.completed = true → s'.loop.place = .waiting → s'.loop.timer.signalled = true := by
  intro h
  have := h (windows64 Nat) newLoop _
    [.loop .advance, .doTerminate, .proceed 0, .proceed 0, .proceed 0, .loop .advance,
      .loop .advance, .loop .advance, .loop .advance, .loop .advance, .loop .advance]
    [] newLoop_constructed rfl rfl rfl
  cases this

end Terminating

end CppImprovement.Wtf
