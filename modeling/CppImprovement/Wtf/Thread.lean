import CppImprovement.Wtf.Termination

/-!
# Threads and their task runner

A `Thread` runs a message loop that lives in thread-local storage: when the function of the thread
returns, the loop and its `TaskRunner` are destroyed. The owner keeps a pointer to the runner, and
`Join` posts through it a task that terminates the loop. The pointer is good exactly when no other
task has terminated the loop before.
-/

namespace CppImprovement.Wtf

variable {τ : Type}

/-- A task of a thread: one that was posted to it, or the one that `Join` posts. -/
inductive ThreadTask (τ : Type)
  | posted (task : τ)
  | terminate

/-- Whether a task calls `MessageLoop::GetCurrent().Terminate()`, when it is known which of the
posted ones do. -/
def ThreadTask.terminates (terminates : τ → Bool) : ThreadTask τ → Bool
  | .posted task => terminates task
  | .terminate => true

/-- Where the function of the thread is: it is about to call `MessageLoop::Run`, it is in that
call, it is about to return, and the thread-local `MessageLoop` is destroyed. -/
inductive FunctionStage
  | starting
  | looping
  | returning
  | destroyed
deriving DecidableEq

/-- What the current task of the loop still has to do: nothing, call `DoTerminate`, or finish that
call. -/
inductive TaskStage
  | plain
  | calling
  | terminating (stage : TerminateStage)

/-- A `Thread` after its constructor: the loop of its thread, where the function of the thread and
the current task are, and `joined_`. -/
structure Thread (τ : Type) where
  loop : MessageLoopWin (ThreadTask τ)
  function : FunctionStage
  task : TaskStage
  joined : Bool

/-- An atomic step: a task is posted through `GetTaskRunner`, the owner calls `Join` or the
destructor, the function of the thread goes on, or something else happens. -/
inductive ThreadStep (τ : Type)
  | postTask (task : τ) (targetTime : Int)
  | join
  | advance
  | other (i : LoopStep (ThreadTask τ))

/-- `Join` calls `task_runner_->PostTask`, and the runner is alive or not. -/
inductive ThreadEvent
  | usesRunner (alive : Bool)

/-- The step is one of the clock, the timer, or a queue. -/
def LoopStep.isOutside : LoopStep τ → Bool
  | .tick _ => true
  | .fire => true
  | .registerTask _ => true
  | .registerElsewhere _ _ _ => true
  | .takeElsewhere _ _ => true
  | _ => false

namespace Thread

/-- A step of the loop within this state. -/
def lift (P : Platform (ThreadTask τ)) (i : LoopStep (ThreadTask τ)) (s : Thread τ) :
    Option (List ThreadEvent × Thread τ) :=
  (MessageLoopWin.step P i s.loop).map fun r => ([], { s with loop := r.2 })

/-- What the current task has to do after a step that has started the given tasks. -/
def taskAfter (terminates : τ → Bool) : List (ThreadTask τ) → TaskStage
  | [] => .plain
  | task :: _ => if task.terminates terminates then .calling else .plain

/-- The next step of the function of the thread. -/
def advance (P : Platform (ThreadTask τ)) (terminates : τ → Bool) (s : Thread τ) :
    Option (List ThreadEvent × Thread τ) :=
  match s.function, s.task with
  | .starting, _ =>
    if s.loop.terminated then some ([], { s with function := .returning })
    else { s with function := .looping }.lift P .advance
  | .looping, .calling =>
    { s with task := .terminating .terminated }.lift P .setTerminated
  | .looping, .terminating .terminated =>
    { s with task := .terminating .cleared }.lift P .clearRunning
  | .looping, .terminating .cleared =>
    some ([], { s with task := .terminating (.waking s.loop.clock) })
  | .looping, .terminating (.waking timePoint) =>
    { s with task := .plain }.lift P (.wakeUpNow timePoint)
  | .looping, .plain =>
    (s.loop.advance P).map fun r =>
      ([], { s with
        loop := r.2
        task := taskAfter terminates r.1
        function := if s.loop.place = .disposing then .returning else .looping })
  | .returning, _ => some ([], { s with function := .destroyed })
  | .destroyed, _ => none

/-- `Thread::Join`, up to the wait for the thread. -/
def join (P : Platform (ThreadTask τ)) (s : Thread τ) : Option (List ThreadEvent × Thread τ) :=
  if s.joined then some ([], s)
  else if s.function = .destroyed then some ([.usesRunner false], { s with joined := true })
  else
    (MessageLoopWin.step P (.postTask (some .terminate) s.loop.clock) s.loop).map fun r =>
      ([.usesRunner true], { s with loop := r.2, joined := true })

/-- One step. What happens to the loop after it was destroyed is not followed. -/
def step (P : Platform (ThreadTask τ)) (terminates : τ → Bool) :
    ThreadStep τ → Thread τ → Option (List ThreadEvent × Thread τ)
  | .postTask task targetTime, s =>
    if s.function = .destroyed then none
    else s.lift P (.postTask (some (.posted task)) targetTime)
  | .join, s => s.join P
  | .advance, s => s.advance P terminates
  | .other i, s =>
    if i.isOutside && s.function != .destroyed then s.lift P i else none

/-- A thread whose constructor has returned: its function has signalled the latch. -/
structure Constructed (P : Platform (ThreadTask τ)) (s : Thread τ) : Prop where
  loop : s.loop.Constructed P
  terminated : s.loop.terminated = false
  posting : s.loop.posting = []
  function : s.function = .starting
  task : s.task = .plain
  joined : s.joined = false

end Thread

/-- The step posts only tasks of the given set. -/
def ThreadStep.PostsIn (S : τ → Int → Prop) : ThreadStep τ → Prop
  | .postTask task targetTime => S task targetTime
  | _ => True

/-! ## Until a task terminates the loop -/

/-- The loop thread is in `Run` and does not leave it. -/
def Place.Stays (running : Bool) : Place → Prop
  | .entering => True
  | .testing => running = true
  | .waiting => running = true
  | .woken last => last = false ∧ running = true
  | .flushing _ last => last = false ∧ running = true
  | .running _ last => last = false ∧ running = true
  | _ => False

namespace Thread

/-- A task that is posted and does not terminate the loop. -/
def Harmless (terminates : τ → Bool) (task : Option (ThreadTask τ)) : Prop :=
  ∃ f, task = some (.posted f) ∧ terminates f = false

/-- Nothing in the loop can terminate it. -/
structure Steady (terminates : τ → Bool) (s : Thread τ) : Prop where
  posting : ∀ e ∈ s.loop.posting, Harmless terminates e.1
  pending : ∀ d ∈ s.loop.pending, Harmless terminates d.task
  task : s.task = .plain
  terminated : s.loop.terminated = false
  function : s.function = .starting ∧ s.loop.place = .outside ∨
    s.function = .looping ∧ s.loop.place.Stays s.loop.running

/-- The loop is watched, and before `Join` it is steady. -/
structure Sound (P : Platform (ThreadTask τ)) (terminates : τ → Bool) (s : Thread τ) : Prop where
  watched : s.loop.Watched P
  steady : s.joined = false → s.Steady terminates

section steady

variable {P : Platform (ThreadTask τ)} {terminates : τ → Bool} {s : Thread τ}

theorem Constructed.sound (h : s.Constructed P) : s.Sound P terminates where
  watched := h.loop.watched
  steady _ :=
    { posting := by
        rw [h.posting]
        simp
      pending := by
        rw [MessageLoopWin.pending, pending_of_entry h.loop.entry]
        simp
      task := h.task
      terminated := h.terminated
      function := Or.inl ⟨h.function, h.loop.place⟩ }

theorem Steady.alive (h : s.Steady terminates) : s.function ≠ .destroyed := by
  rcases h.function with ⟨hf, -⟩ | ⟨hf, -⟩
  · rw [hf]
    exact nofun
  · rw [hf]
    exact nofun

theorem lift_eq_some {i : LoopStep (ThreadTask τ)} {o : List ThreadEvent} {s' : Thread τ}
    (h : s.lift P i = some (o, s')) :
    o = [] ∧ ∃ r l, MessageLoopWin.step P i s.loop = some (r, l) ∧ s' = { s with loop := l } := by
  obtain ⟨⟨r, l⟩, hl, heq⟩ := Option.map_eq_some_iff.mp h
  cases heq
  exact ⟨rfl, r, l, hl, rfl⟩

/-- A step outside the loop thread keeps the loop steady when it brings in harmless tasks only. -/
theorem Steady.of_eq {l : MessageLoopWin (ThreadTask τ)} (h : s.Steady terminates)
    (hposting : ∀ e ∈ l.posting, Harmless terminates e.1)
    (hpending : ∀ d ∈ l.pending, Harmless terminates d.task)
    (hterminated : l.terminated = s.loop.terminated) (hrunning : l.running = s.loop.running)
    (hplace : l.place = s.loop.place) : { s with loop := l }.Steady terminates where
  posting := hposting
  pending := hpending
  task := h.task
  terminated := hterminated.trans h.terminated
  function := by
    rw [hrunning, hplace]
    exact h.function

/-- A task that does not terminate the loop is posted. -/
theorem Steady.post (h : s.Steady terminates) {f : τ} {t : Int} (hf : terminates f = false)
    {r : List (ThreadTask τ)} {l : MessageLoopWin (ThreadTask τ)}
    (hstep : MessageLoopWin.step P (.postTask (some (.posted f)) t) s.loop = some (r, l)) :
    { s with loop := l }.Steady terminates := by
  rw [MessageLoopWin.step] at hstep
  split at hstep
  · cases hstep
    exact h
  · cases hstep
    refine h.of_eq (fun e he => ?_) h.pending rfl rfl rfl
    rcases List.mem_append.mp he with he | he
    · exact h.posting e he
    · rw [List.mem_singleton.mp he]
      exact ⟨f, rfl, hf⟩

/-- A task that was posted is registered. -/
theorem Steady.register (h : s.Steady terminates) (hw : s.loop.Wired P) {j : Nat}
    {r : List (ThreadTask τ)} {l : MessageLoopWin (ThreadTask τ)}
    (hstep : MessageLoopWin.step P (.registerTask j) s.loop = some (r, l)) :
    { s with loop := l }.Steady terminates := by
  rw [MessageLoopWin.step] at hstep
  split at hstep
  · rename_i task t hj
    cases hstep
    refine h.of_eq (fun e he => h.posting e (List.mem_of_mem_eraseIdx he)) (fun d hd => ?_)
      rfl rfl rfl
    have hmem : d ∈ s.loop.pending ++ [⟨sizeOfOrder s.loop.queues.order, task, t⟩] := by
      rw [← hw.register.2.2]
      exact hd
    rcases List.mem_append.mp hmem with hd | hd
    · exact h.pending d hd
    · rw [List.mem_singleton.mp hd]
      exact h.posting _ (List.mem_of_getElem? hj)
  · cases hstep

theorem Steady.outside (h : s.Steady terminates) (hw : s.loop.Wired P)
    {i : LoopStep (ThreadTask τ)} (hi : i.isOutside = true) {r : List (ThreadTask τ)}
    {l : MessageLoopWin (ThreadTask τ)} (hstep : MessageLoopWin.step P i s.loop = some (r, l)) :
    { s with loop := l }.Steady terminates := by
  by_cases hb : MessageLoopWin.isBeside i = true
  · have hbeside := hw.beside hb hstep
    exact h.of_eq (hbeside.posting ▸ h.posting) (hbeside.pending ▸ h.pending) hbeside.terminated
      hbeside.running hbeside.place
  · cases i with
    | registerTask j => exact h.register hw hstep
    | tick now => exact absurd rfl hb
    | fire => exact absurd rfl hb
    | registerElsewhere q task t => exact absurd rfl hb
    | takeElsewhere q t => exact absurd rfl hb
    | _ => cases hi

/-- The loop thread goes on in `Run`. -/
theorem Steady.goes_on (h : s.Steady terminates) {l : MessageLoopWin (ThreadTask τ)}
    (hposting : l.posting = s.loop.posting) (hpending : l.pending ⊆ s.loop.pending)
    (hterminated : l.terminated = s.loop.terminated) (hstays : l.place.Stays l.running) :
    { s with loop := l, task := .plain, function := .looping }.Steady terminates where
  posting := by
    rw [hposting]
    exact h.posting
  pending d hd := h.pending d (hpending hd)
  task := rfl
  terminated := hterminated.trans h.terminated
  function := Or.inr ⟨rfl, hstays⟩

/-- The next step in `Run`, when the tasks in the queue do not terminate the loop. -/
theorem Steady.advance_loop (h : s.Steady terminates) (hw : s.loop.Wired P)
    (hstays : s.loop.place.Stays s.loop.running) {r : List (ThreadTask τ)}
    {l : MessageLoopWin (ThreadTask τ)} (hstep : s.loop.advance P = some (r, l)) :
    taskAfter terminates r = .plain ∧ s.loop.place ≠ .disposing ∧
      { s with loop := l, task := .plain, function := .looping }.Steady terminates := by
  rw [MessageLoopWin.advance] at hstep
  cases hplace : s.loop.place with
  | outside =>
    rw [hplace] at hstays
    exact hstays.elim
  | entering =>
    simp only [hplace] at hstep
    cases hstep
    exact ⟨rfl, (by rintro ⟨⟩), h.goes_on rfl (List.Subset.refl _) rfl rfl⟩
  | testing =>
    rw [hplace] at hstays
    simp only [hplace] at hstep
    split at hstep
    · cases hstep
      exact ⟨rfl, (by rintro ⟨⟩), h.goes_on rfl (List.Subset.refl _) rfl hstays⟩
    · rename_i hrunning
      exact absurd hstays hrunning
  | waiting =>
    rw [hplace] at hstays
    simp only [hplace] at hstep
    split at hstep
    · cases hstep
      exact ⟨rfl, (by rintro ⟨⟩), h.goes_on rfl (List.Subset.refl _) rfl ⟨rfl, hstays⟩⟩
    · cases hstep
  | leaving =>
    rw [hplace] at hstays
    exact hstays.elim
  | woken last =>
    rw [hplace] at hstays
    simp only [hplace] at hstep
    cases hstep
    exact ⟨rfl, (by rintro ⟨⟩), h.goes_on rfl (List.Subset.refl _) rfl hstays⟩
  | flushing now last =>
    rw [hplace] at hstays
    obtain ⟨rfl, hrunning⟩ := hstays
    obtain ⟨f, u, hr, -, -, htook⟩ := hw.take (t := now)
    simp only [hplace, hr] at hstep
    rcases htook with ⟨rfl, hpending, -⟩ | ⟨d, rfl, -, hperm⟩
    · cases hstep
      exact ⟨rfl, (by rintro ⟨⟩), h.goes_on rfl (hpending ▸ List.Subset.refl _) rfl hrunning⟩
    · obtain ⟨f, hd, hharmless⟩ := h.pending d (hperm.subset (List.mem_cons_self ..))
      rw [hd] at hstep
      cases hstep
      refine ⟨?_, (by rintro ⟨⟩), h.goes_on rfl ?_ rfl ⟨rfl, hrunning⟩⟩
      · simp only [taskAfter, ThreadTask.terminates, hharmless, Bool.false_eq_true, if_false]
      · exact fun x hx => hperm.subset (List.mem_cons_of_mem d hx)
  | running now last =>
    rw [hplace] at hstays
    simp only [hplace] at hstep
    cases hstep
    exact ⟨rfl, (by rintro ⟨⟩), h.goes_on rfl (List.Subset.refl _) rfl hstays⟩
  | disposing =>
    rw [hplace] at hstays
    exact hstays.elim

/-- The next step of the function of the thread. -/
theorem Steady.advance (h : s.Steady terminates) (hw : s.loop.Wired P) {o : List ThreadEvent}
    {s' : Thread τ} (hstep : s.advance P terminates = some (o, s')) : s'.Steady terminates := by
  rcases h.function with ⟨hf, hplace⟩ | ⟨hf, hstays⟩
  · simp only [Thread.advance, hf, h.terminated, Bool.false_eq_true, if_false] at hstep
    obtain ⟨-, r, l, hl, rfl⟩ := lift_eq_some hstep
    simp only [MessageLoopWin.step, MessageLoopWin.advance, hplace, h.terminated,
      Bool.false_eq_true, if_false] at hl
    cases hl
    exact ⟨h.posting, h.pending, h.task, rfl, Or.inr ⟨rfl, trivial⟩⟩
  · simp only [Thread.advance, hf, h.task] at hstep
    obtain ⟨⟨r, l⟩, hl, heq⟩ := Option.map_eq_some_iff.mp hstep
    cases heq
    obtain ⟨htask, hne, hsteady⟩ := h.advance_loop hw hstays hl
    rw [htask, if_neg hne]
    exact hsteady

/-- Every step of the function keeps the loop watched, and shows nothing. -/
theorem watched_advance (h : s.loop.Watched P) {o : List ThreadEvent} {s' : Thread τ}
    (hstep : s.advance P terminates = some (o, s')) :
    o = [] ∧ s'.loop.Watched P ∧ s'.joined = s.joined := by
  rw [Thread.advance] at hstep
  split at hstep
  · split at hstep
    · cases hstep
      exact ⟨rfl, h, rfl⟩
    · obtain ⟨rfl, r, l, hl, rfl⟩ := lift_eq_some hstep
      exact ⟨rfl, h.step hl, rfl⟩
  · obtain ⟨rfl, r, l, hl, rfl⟩ := lift_eq_some hstep
    exact ⟨rfl, h.step hl, rfl⟩
  · obtain ⟨rfl, r, l, hl, rfl⟩ := lift_eq_some hstep
    exact ⟨rfl, h.step hl, rfl⟩
  · cases hstep
    exact ⟨rfl, h, rfl⟩
  · obtain ⟨rfl, r, l, hl, rfl⟩ := lift_eq_some hstep
    exact ⟨rfl, h.step hl, rfl⟩
  · obtain ⟨⟨r, l⟩, hl, heq⟩ := Option.map_eq_some_iff.mp hstep
    cases heq
    exact ⟨rfl, h.advance hl, rfl⟩
  · cases hstep
    exact ⟨rfl, h, rfl⟩
  · cases hstep

/-- Steps that post no task that terminates the loop keep the thread sound, and `Join` uses a
runner that is alive. -/
theorem Sound.step (h : s.Sound P terminates) {i : ThreadStep τ}
    (hi : i.PostsIn fun f _ => terminates f = false) {o : List ThreadEvent} {s' : Thread τ}
    (hstep : Thread.step P terminates i s = some (o, s')) :
    s'.Sound P terminates ∧ ∀ alive, .usesRunner alive ∈ o → alive = true := by
  cases i with
  | postTask f t =>
    rw [Thread.step] at hstep
    split at hstep
    · cases hstep
    · obtain ⟨rfl, r, l, hl, rfl⟩ := lift_eq_some hstep
      exact ⟨⟨h.watched.step hl, fun hj => (h.steady hj).post hi hl⟩, nofun⟩
  | join =>
    rw [Thread.step, Thread.join] at hstep
    split at hstep
    · cases hstep
      exact ⟨h, nofun⟩
    · rename_i hj
      rw [if_neg (h.steady (Bool.eq_false_iff.mpr hj)).alive] at hstep
      obtain ⟨⟨r, l⟩, hl, heq⟩ := Option.map_eq_some_iff.mp hstep
      cases heq
      refine ⟨⟨h.watched.step hl, nofun⟩, fun alive hmem => ?_⟩
      cases List.mem_singleton.mp hmem
      rfl
  | advance =>
    obtain ⟨rfl, hwatched, hjoined⟩ := watched_advance h.watched hstep
    refine ⟨⟨hwatched, fun hj => ?_⟩, nofun⟩
    rw [hjoined] at hj
    exact (h.steady hj).advance h.watched.wired hstep
  | other i =>
    rw [Thread.step] at hstep
    split at hstep
    · rename_i hout
      obtain ⟨rfl, r, l, hl, rfl⟩ := lift_eq_some hstep
      refine ⟨⟨h.watched.step hl, fun hj => ?_⟩, nofun⟩
      exact (h.steady hj).outside h.watched.wired (Bool.and_eq_true_iff.mp hout).1 hl
    · cases hstep

/-- `Join` uses a runner that is alive when no task that may be posted terminates the loop. -/
theorem Sound.usesRunner (h : s.Sound P terminates) {S : τ → Int → Prop}
    (hS : ∀ f t, S f t → terminates f = false) {steps : List (ThreadStep τ)}
    (hposts : ∀ i ∈ steps, i.PostsIn S) {tr : List ThreadEvent} {s' : Thread τ}
    (hrun : exec (Thread.step P terminates) steps s = some (tr, s')) :
    ∀ alive, .usesRunner alive ∈ tr → alive = true := by
  have hstart : s.Sound P terminates ∧
      ∀ alive, ThreadEvent.usesRunner alive ∈ [] → alive = true := ⟨h, nofun⟩
  have hinv : s'.Sound P terminates ∧ ∀ alive, .usesRunner alive ∈ [] ++ tr → alive = true := by
    refine exec_invariant_on (p := ThreadStep.PostsIn S)
      (I := fun tr s => s.Sound P terminates ∧ ∀ alive, .usesRunner alive ∈ tr → alive = true)
      (fun tr i s o t hi hs hstep => ?_) hposts hstart hrun
    have hharmless : i.PostsIn fun f _ => terminates f = false := by
      cases i with
      | postTask f t => exact hS f t hi
      | _ => trivial
    obtain ⟨hsound, hshown⟩ := hs.1.step hharmless hstep
    exact ⟨hsound, fun alive hmem => (List.mem_append.mp hmem).elim (hs.2 alive) (hshown alive)⟩
  exact hinv.2

end steady

/-! ## When a task terminates the loop -/

section doomed

variable {P : Platform (ThreadTask τ)} {terminates : τ → Bool} {S : τ → Int → Prop} {s : Thread τ}

/-- A step of the loop thread in `DoRun`. -/
theorem step_looping (hf : s.function = .looping) (ht : s.task = .plain)
    {r : List (ThreadTask τ)} {l : MessageLoopWin (ThreadTask τ)}
    (hl : s.loop.advance P = some (r, l)) :
    step P terminates .advance s = some ([], { s with
      loop := l
      task := taskAfter terminates r
      function := if s.loop.place = .disposing then .returning else .looping }) := by
  simp only [step, advance, hf, ht, hl, Option.map_some]

/-- An empty queue gives null to a flush. -/
theorem advance_empty {l : MessageLoopWin (ThreadTask τ)} {now : Int} {last : Bool}
    (hw : l.Wired P) (hplace : l.place = .flushing now last) (hp : l.pending = []) :
    ∃ u, l.advance P = some ([],
        { l.answered u with place := if last then .disposing else .testing }) ∧
      (l.answered u).Wired P ∧ (l.answered u).pending = [] := by
  obtain ⟨r, u, hr, hwired, -, htook⟩ := hw.take (t := now)
  rcases htook with ⟨rfl, hpending, -⟩ | ⟨d, -, -, hperm⟩
  · refine ⟨u, ?_, hwired, hpending.trans hp⟩
    simp only [MessageLoopWin.advance, hplace, hr]
  · rw [hp] at hperm
    cases hperm.eq_nil

/-- The loop is in its wait, and a task that is due and terminates it wakes it. -/
structure Primed (P : Platform (ThreadTask τ)) (terminates : τ → Bool) (s : Thread τ) :
    Prop where
  wired : s.loop.Wired P
  function : s.function = .looping
  task : s.task = .plain
  joined : s.joined = false
  place : s.loop.place = .waiting
  signalled : s.loop.timer.signalled = true
  pending : ∃ d f, s.loop.pending = [d] ∧ d.targetTime ≤ s.loop.clock ∧
    d.task = some (.posted f) ∧ terminates f = true

/-- A task has terminated the loop, and nothing else is in the queue. -/
structure Doomed (P : Platform (ThreadTask τ)) (s : Thread τ) : Prop where
  wired : s.loop.Wired P
  function : s.function = .looping
  task : s.task = .plain
  joined : s.joined = false
  place : ∃ now, s.loop.place = .running now false
  running : s.loop.running = false
  pending : s.loop.pending = []

/-- A task is posted when it is due, and the loop goes into its wait. -/
theorem Constructed.primed (h : s.Constructed P) {f : τ} {t : Int} (hS : S f t)
    (hf : terminates f = true) :
    ∃ s', Reaches (step P terminates) (ThreadStep.PostsIn S) s s' ∧ s'.Primed P terminates := by
  obtain ⟨⟨address, queueId, queues, timer, clock, place, terminated, running, posting⟩, function,
    task, joined⟩ := s
  obtain ⟨hloop, hterminated, hposting, hfunction, htask, hjoined⟩ := h
  have hplace := hloop.place
  have hempty : queues.pending queueId = [] := pending_of_entry hloop.entry
  simp only at hterminated hposting hfunction htask hjoined hplace
  subst hterminated hposting hfunction htask hjoined hplace
  obtain ⟨now, hclock, hdue⟩ : ∃ now, clock ≤ now ∧ t ≤ now :=
    ⟨max clock t, Int.le_max_left .., Int.le_max_right ..⟩
  let posted : MessageLoopWin (ThreadTask τ) :=
    ⟨address, queueId, queues, timer, now, .outside, false, running, [(some (.posted f), t)]⟩
  have hwired : posted.Wired P := hloop.watched.wired.of_eq rfl rfl rfl hloop.wakeUps
  let registered :=
    posted.answered (finalState (registerTask P queueId (some (.posted f)) t queues))
  have hregistered : registered.Wired P := hwired.register.1
  have hpending : registered.pending =
      posted.pending ++ [⟨sizeOfOrder queues.order, some (.posted f), t⟩] := hwired.register.2.2
  rw [show posted.pending = [] from hempty] at hpending
  have hsignalled : registered.timer.signalled = true :=
    hwired.signalled_register.mpr (Or.inl (by change t < now + 100; omega))
  refine ⟨⟨{ registered with posting := [], place := .waiting, running := true }, .looping, .plain,
    false⟩, ?_, hregistered.of_eq rfl rfl rfl rfl, rfl, rfl, rfl, rfl, hsignalled, ?_⟩
  · have htick : step P terminates (.other (.tick now))
        ⟨⟨address, queueId, queues, timer, clock, .outside, false, running, []⟩, .starting, .plain,
          false⟩ = some ([], ⟨{ posted with posting := [] }, .starting, .plain, false⟩) := by
      simp [step, lift, LoopStep.isOutside, MessageLoopWin.step, hclock, posted]
    refine Reaches.cons htick trivial ?_
    refine Reaches.cons (i := ThreadStep.postTask f t) rfl hS ?_
    refine Reaches.cons (i := ThreadStep.other (.registerTask 0)) rfl trivial ?_
    refine Reaches.cons (i := ThreadStep.advance) rfl trivial ?_
    refine Reaches.cons (i := ThreadStep.advance) rfl trivial ?_
    exact Reaches.single (i := ThreadStep.advance) rfl trivial
  · exact ⟨_, f, hpending, hdue, rfl, hf⟩

/-- The current task calls `DoTerminate`. -/
theorem reaches_terminated (hf : s.function = .looping) (ht : s.task = .calling) :
    Reaches (step P terminates) (ThreadStep.PostsIn S) s { s with
      loop := { s.loop with
        terminated := true, running := false, timer := wakeUp s.loop.clock s.loop.clock }
      task := .plain } := by
  obtain ⟨loop, function, task, joined⟩ := s
  simp only at hf ht
  subst hf ht
  refine Reaches.cons (i := ThreadStep.advance) rfl trivial ?_
  refine Reaches.cons (i := ThreadStep.advance) rfl trivial ?_
  refine Reaches.cons (i := ThreadStep.advance) rfl trivial ?_
  refine Reaches.single (i := ThreadStep.advance) (o := []) ?_ trivial
  simp only [step, advance, lift, MessageLoopWin.step, Int.le_refl, if_true, Option.map_some]

/-- The task that is due is run, and terminates the loop. -/
theorem Primed.doomed (h : s.Primed P terminates) :
    ∃ s', Reaches (step P terminates) (ThreadStep.PostsIn S) s s' ∧ s'.Doomed P := by
  obtain ⟨⟨address, queueId, queues, timer, clock, place, terminated, running, posting⟩, function,
    task, joined⟩ := s
  obtain ⟨hwired, hfunction, htask, hjoined, hplace, hsignalled, d, f, hpending, hdue, hd, hf⟩ := h
  simp only at hfunction htask hjoined hplace hdue hsignalled
  subst hfunction htask hjoined hplace
  let flushing : MessageLoopWin (ThreadTask τ) :=
    ⟨address, queueId, queues, { timer with signalled := false }, clock, .flushing clock false,
      terminated, running, posting⟩
  have hflushing : flushing.Wired P := hwired.of_eq rfl rfl rfl hwired.wakeUps
  obtain ⟨r, u, hr, htaken, -, htook⟩ := hflushing.take (t := clock)
  have hpend : flushing.pending = [d] := hpending
  rcases htook with ⟨-, -, hlater⟩ | ⟨x, rfl, -, hperm⟩
  · have := hlater d (by rw [hpend]; exact List.mem_singleton_self d)
    omega
  · rw [hpend] at hperm
    have heq := List.perm_singleton.mp hperm
    obtain ⟨hxd, hrest⟩ := List.cons_eq_cons.mp heq
    subst hxd
    let started := { flushing.answered u with place := .running clock false }
    have hstart : flushing.advance P = some ([.posted f], started) := by
      simp only [MessageLoopWin.advance, flushing] at hr ⊢
      simp only [hr, hd]
      rfl
    have hcalling : step P terminates .advance ⟨flushing, .looping, .plain, false⟩ =
        some ([], ⟨started, .looping, .calling, false⟩) := by
      rw [step_looping rfl rfl hstart]
      simp only [taskAfter, ThreadTask.terminates, hf, if_true]
      rfl
    refine ⟨⟨{ started with
      terminated := true, running := false, timer := wakeUp clock clock }, .looping, .plain, false⟩,
      ?_, htaken.of_eq rfl rfl rfl rfl, rfl, rfl, rfl, ⟨clock, rfl⟩, rfl, hrest⟩
    have hwoken : step P terminates .advance
        ⟨⟨address, queueId, queues, timer, clock, .waiting, terminated, running, posting⟩, .looping,
          .plain, false⟩ =
        some ([], ⟨{ flushing with place := .woken false }, .looping, .plain, false⟩) := by
      simp only [step, advance, MessageLoopWin.advance]
      rw [if_pos hsignalled]
      rfl
    refine Reaches.cons hwoken trivial ?_
    refine Reaches.cons (i := ThreadStep.advance) rfl trivial ?_
    exact Reaches.cons hcalling trivial (reaches_terminated rfl rfl)

/-- `DoRun` returns after a last flush, and then the function of the thread does. -/
theorem Doomed.destroyed (h : s.Doomed P) :
    ∃ s', Reaches (step P terminates) (ThreadStep.PostsIn S) s s' ∧ s'.function = .destroyed ∧
      s'.joined = false := by
  obtain ⟨⟨address, queueId, queues, timer, clock, place, terminated, running, posting⟩, function,
    task, joined⟩ := s
  obtain ⟨hwired, hfunction, htask, hjoined, ⟨now, hplace⟩, hrunning, hpending⟩ := h
  simp only at hfunction htask hjoined hplace hrunning
  subst hfunction htask hjoined hplace hrunning
  let flushing : MessageLoopWin (ThreadTask τ) :=
    ⟨address, queueId, queues, timer, clock, .flushing now false, terminated, false, posting⟩
  obtain ⟨u, hu, hwired', hpending'⟩ :=
    advance_empty (l := flushing) (hwired.of_eq rfl rfl rfl hwired.wakeUps) rfl hpending
  let last : MessageLoopWin (ThreadTask τ) :=
    { flushing.answered u with place := .flushing clock true, terminated := true }
  obtain ⟨v, hv, -, -⟩ :=
    advance_empty (l := last) (hwired'.of_eq rfl rfl rfl rfl) rfl hpending'
  let disposing := { last.answered v with place := .disposing }
  obtain ⟨r, l, hdispose⟩ : ∃ r l, disposing.advance P = some (r, l) := ⟨_, _, rfl⟩
  refine ⟨⟨l, .destroyed, taskAfter terminates r, false⟩, ?_, rfl, rfl⟩
  refine Reaches.cons (i := ThreadStep.advance) rfl trivial ?_
  refine Reaches.cons (step_looping (s := ⟨flushing, .looping, .plain, false⟩) rfl rfl hu)
    trivial ?_
  refine Reaches.cons (i := ThreadStep.advance) rfl trivial ?_
  refine Reaches.cons (i := ThreadStep.advance) rfl trivial ?_
  refine Reaches.cons (i := ThreadStep.advance) rfl trivial ?_
  refine Reaches.cons (step_looping (s := ⟨last, .looping, .plain, false⟩) rfl rfl hv) trivial ?_
  refine Reaches.cons (step_looping (s := ⟨disposing, .looping, .plain, false⟩) rfl rfl hdispose)
    trivial ?_
  exact Reaches.single (i := ThreadStep.advance) rfl trivial

/-- A task that terminates the loop can destroy the runner before `Join`. -/
theorem Constructed.destroyed (h : s.Constructed P) {f : τ} {t : Int} (hS : S f t)
    (hf : terminates f = true) :
    ∃ s', Reaches (step P terminates) (ThreadStep.PostsIn S) s s' ∧ s'.function = .destroyed ∧
      s'.joined = false := by
  obtain ⟨s₁, h₁, hprimed⟩ := h.primed hS hf
  obtain ⟨s₂, h₂, hdoomed⟩ := hprimed.doomed (S := S)
  obtain ⟨s₃, h₃, hdestroyed⟩ := hdoomed.destroyed (S := S)
  exact ⟨s₃, h₁.trans (h₂.trans h₃), hdestroyed⟩

end doomed

/-- Whatever the interleaving, `Join` uses a runner that is alive, if and only if no task that may
be posted to the thread terminates its loop. -/
theorem join_uses_live_runner_iff (P : Platform (ThreadTask τ)) (terminates : τ → Bool)
    (S : τ → Int → Prop) {s : Thread τ} (h : s.Constructed P) :
    (∀ steps tr s', exec (step P terminates) steps s = some (tr, s') →
      (∀ i ∈ steps, i.PostsIn S) → ∀ alive, .usesRunner alive ∈ tr → alive = true) ↔
      ∀ f t, S f t → terminates f = false := by
  constructor
  · intro hlive f t hS
    by_contra hf
    obtain ⟨s', ⟨is, tr, hrun, hposts⟩, hdestroyed, hjoined⟩ :=
      h.destroyed hS (Bool.not_eq_false _ ▸ hf)
    have hjoin : step P terminates .join s' =
        some ([.usesRunner false], { s' with joined := true }) := by
      simp only [step, join, hjoined, hdestroyed, Bool.false_eq_true, if_false, if_true]
    have := hlive (is ++ [.join]) (tr ++ [.usesRunner false]) _
      (exec_append_eq_some.mpr ⟨s', tr, _, hrun, exec_cons_of_eq hjoin, rfl⟩)
      (fun i hi => (List.mem_append.mp hi).elim (hposts i)
        fun hi => List.mem_singleton.mp hi ▸ trivial)
      false (List.mem_append_right tr (List.mem_singleton_self _))
    cases this
  · exact fun hS steps tr s' hrun hposts => h.sound.usesRunner hS hposts hrun

/-- A thread with the first loop of a process. -/
def newThread : Thread Nat where
  loop := MessageLoopWin.first (ThreadTask Nat)
  function := .starting
  task := .plain
  joined := false

theorem newThread_constructed : newThread.Constructed (windows64 (ThreadTask Nat)) where
  loop := MessageLoopWin.first_constructed (ThreadTask Nat)
  terminated := rfl
  posting := rfl
  function := rfl
  task := rfl
  joined := rfl

/-- Only the task 7 terminates the loop, and it is not posted: then `Join` always finds its runner,
and it does use it. -/
theorem join_uses_live_runner_sample :
    (∀ steps tr s', exec (step (windows64 (ThreadTask Nat)) fun f => f == 7) steps newThread =
        some (tr, s') → (∀ i ∈ steps, i.PostsIn fun f _ => f < 7) →
        ∀ alive, .usesRunner alive ∈ tr → alive = true) ∧
      ∃ s', exec (step (windows64 (ThreadTask Nat)) fun f => f == 7)
        [.postTask 3 0, .other (.registerTask 0), .advance, .join] newThread =
        some ([.usesRunner true], s') := by
  refine ⟨?_, _, rfl⟩
  refine (join_uses_live_runner_iff (windows64 (ThreadTask Nat)) (fun f => f == 7)
    (fun f _ => f < 7) newThread_constructed).mpr fun f t hf => ?_
  exact beq_false_of_ne (Nat.ne_of_lt hf)

/-- A task terminates the loop, the function of the thread returns, and then the owner destroys the
`Thread`. -/
theorem join_uses_dead_runner :
    ¬ ∀ (P : Platform (ThreadTask Nat)) (terminates : Nat → Bool) (s s' : Thread Nat)
      (steps : List (ThreadStep Nat)) (tr : List ThreadEvent), s.Constructed P →
      exec (step P terminates) steps s = some (tr, s') →
      ∀ alive, .usesRunner alive ∈ tr → alive = true := by
  intro h
  have := h (windows64 (ThreadTask Nat)) (fun _ => true) newThread _
    ([.postTask 7 0, .other (.registerTask 0)] ++ List.replicate 18 .advance ++ [.join])
    [.usesRunner false] newThread_constructed rfl false (List.mem_singleton_self _)
  cases this

end Thread

end CppImprovement.Wtf
